import Mathlib.Data.Multiset.Filter
import Canon.Graph.Invariant

/-! # The graph of symbols

    What the projection is for: a finite map from symbols to what is known about
    them, and a multiset of edges between symbols.  Node numbers do not occur in
    it.  The projection refines it as long as its numbers are not cut, so renumbering a
    node never moves an edge to another symbol.  Nodes without a symbol are no entries
    of the map.

    * `GraphInv.abstraction_step`: one event; a file is noted by the number it gets,
    * `projection_refines_symbols`: the whole run,
    * `edge_at_wrong_symbols`: an edge of the node that is numbered 0 again.
-/

namespace Canon.Graph

/-! ### The abstract graph -/

structure NodeData where
  kind : String
  file : Option String
  line : Option Nat
deriving DecidableEq, Repr

/-- Kind, and file and line where they are given, else what the entry had. -/
def NodeData.merge (old : Option NodeData) (kind file : String) (line : Nat) : NodeData where
  kind := kind
  file := if file = "" then old.bind (·.file) else some file
  line := (lineOf line).or (old.bind (·.line))

@[ext] structure SymbolGraph where
  nodes : FMap String NodeData
  edges : Multiset (String × String × String)

namespace SymbolGraph

variable (g : SymbolGraph)

def empty : SymbolGraph := { nodes := FMap.empty, edges := 0 }

def putNode (symbol kind file : String) (line : Nat) : SymbolGraph :=
  if kind = "" ∨ symbol = "" then g
  else
    { g with nodes := g.nodes.insert symbol (.merge (g.nodes symbol) kind file line) }

theorem putNode_nodes {symbol kind : String} (hsymbol : symbol ≠ "") (hkind : kind ≠ "")
    (file : String) (line : Nat) (s : String) :
    (g.putNode symbol kind file line).nodes s =
      if s = symbol then some (.merge (g.nodes symbol) kind file line) else g.nodes s := by
  rw [putNode, if_neg (by tauto)]
  rfl

@[simp] theorem putNode_edges (symbol kind file : String) (line : Nat) :
    (g.putNode symbol kind file line).edges = g.edges := by
  unfold putNode
  split <;> rfl

/-- The entry of the symbol and the edges at it. -/
def removeNode (symbol : String) : SymbolGraph :=
  { nodes := g.nodes.erase symbol
    edges := g.edges.filter fun e => e.1 ≠ symbol ∧ e.2.1 ≠ symbol }

def addEdge (src dst kind : String) : SymbolGraph :=
  if (g.nodes src).isSome ∧ (g.nodes dst).isSome then
    { g with edges := (src, dst, kind) ::ₘ g.edges }
  else g

@[simp] theorem addEdge_nodes (src dst kind : String) :
    (g.addEdge src dst kind).nodes = g.nodes := by
  unfold addEdge
  split <;> rfl

def removeEdge (src dst kind : String) : SymbolGraph :=
  { g with edges := g.edges.filter fun e => e ≠ (src, dst, kind) }

def apply (event : RustcEvent) (g : SymbolGraph) (clearOnSession : Bool) : SymbolGraph :=
  match event with
  | .sessionStart _ => if clearOnSession then empty else g
  | .nodeDefined symbol kind file line => g.putNode symbol kind file line
  | .nodeUpdated symbol kind file line => g.putNode symbol kind file line
  | .nodeRemoved symbol => g.removeNode symbol
  | .edgeDefined src dst kind => g.addEdge src dst kind
  | .edgeRemoved src dst kind => g.removeEdge src dst kind
  | _ => g

end SymbolGraph

def symbolMachine : Machine SymbolGraph (RustcEvent × Bool) where
  step g call := g.apply call.1 call.2

/-! ### Abstraction -/

def dataOf (files : List String) (n : CodeGraphNode) : NodeData :=
  { kind := n.kind, file := n.fileId.bind fun f => files[f]?, line := n.line }

def symbolAt (nodes : List CodeGraphNode) (i : Nat) : String :=
  ((nodes[i]?).map (·.symbol)).getD ""

def edgeOf (nodes : List CodeGraphNode) (e : CodeGraphEdge) : String × String × String :=
  (symbolAt nodes e.src, symbolAt nodes e.dst, e.kind)

def abstraction (g : CodeGraphProjection) : SymbolGraph where
  nodes symbol :=
    if symbol = "" then none
    else (g.nodes.find? (·.symbol == symbol)).map (dataOf g.files)
  edges := g.edges.map (edgeOf g.nodes)

/-- The node of a symbol, through the index. -/
def GraphState.lookup (st : GraphState) (symbol : String) : Option CodeGraphNode :=
  (st.symbolToId symbol).bind fun id => st.graph.nodes[id]?

section Abstraction

variable {st : GraphState}
variable {symbol : String} {n : CodeGraphNode}

theorem symbolAt_of_getElem? {nodes : List CodeGraphNode} {i : Nat} (h : nodes[i]? = some n) :
    symbolAt nodes i = n.symbol := by
  simp [symbolAt, h]

theorem GraphInv.lookup_eq_some (h : GraphInv st) :
    st.lookup symbol = some n ↔ symbol ≠ "" ∧ n ∈ st.graph.nodes ∧ n.symbol = symbol := by
  rw [GraphState.lookup, Option.bind_eq_some_iff]
  constructor
  · rintro ⟨id, hid, hn⟩
    obtain ⟨hne, m, hm, hms⟩ := h.node_of_index hid
    rw [hn] at hm
    obtain rfl := Option.some.inj hm
    exact ⟨hne, List.mem_of_getElem? hn, hms⟩
  · rintro ⟨hne, hn, hs⟩
    obtain ⟨i, hi⟩ := List.mem_iff_getElem?.mp hn
    exact ⟨i, (h.index _ _).mpr ⟨hne, n, hi, hs⟩, hi⟩

/-- Under the invariant the map of the abstract graph is read off the index. -/
theorem GraphInv.abstraction_nodes (h : GraphInv st) (symbol : String) :
    (abstraction st.graph).nodes symbol = (st.lookup symbol).map (dataOf st.graph.files) := by
  by_cases hs : symbol = ""
  · simp [abstraction, hs, GraphState.lookup, h.symbolToId_empty]
  · simp only [abstraction, if_neg hs]
    congr 1
    cases hfind : st.graph.nodes.find? (·.symbol == symbol) with
    | none =>
      cases hl : st.lookup symbol with
      | none => rfl
      | some n =>
        obtain ⟨-, hn, hsym⟩ := h.lookup_eq_some.mp hl
        rw [List.find?_eq_none] at hfind
        exact absurd (by simpa using hsym) (hfind n hn)
    | some n =>
      have hn := List.mem_of_find?_eq_some hfind
      have hsym : n.symbol = symbol := by simpa using List.find?_some hfind
      exact (h.lookup_eq_some.mpr ⟨hs, hn, hsym⟩).symm

/-- File numbers keep their meaning when files are added. -/
theorem dataOf_append {files : List String} (h : ∀ f, n.fileId = some f → f < files.length)
    (more : List String) :
    dataOf (files ++ more) n = dataOf files n := by
  simp only [dataOf, NodeData.mk.injEq, true_and, and_true]
  cases hf : n.fileId with
  | none => rfl
  | some f =>
    simp only [Option.bind_some]
    rw [List.getElem?_append_left (h f hf)]

theorem GraphInv.dataOf_append (h : GraphInv st) (hn : n ∈ st.graph.nodes) (more : List String) :
    dataOf (st.graph.files ++ more) n = dataOf st.graph.files n :=
  Canon.Graph.dataOf_append (h.fileIds n hn) more

/-- The file that the number of `file` leads to. -/
def notedFile (files : List String) (file : String) : String :=
  if file = "" then "" else ((filesAfter files file)[(internFile files file).1]?).getD ""

theorem notedFile_of_fits {files : List String} {file : String}
    (hfits : file ≠ "" → filePosition files file < 2 ^ 32) : notedFile files file = file := by
  unfold notedFile
  split
  · exact (‹file = ""›).symm
  · rename_i hfile
    rw [filesAfter, if_neg (by simpa using hfile), internFile_fst, asU32_of_lt (hfits hfile),
      (internFile_spec files file).1, Option.getD_some]

theorem GraphInv.getElem?_filesAfter (h : GraphInv st) {file : String} (hfile : file ≠ "") :
    notedFile st.graph.files file ≠ "" ∧
      (filesAfter st.graph.files file)[(internFile st.graph.files file).1]? =
        some (notedFile st.graph.files file) := by
  have hlt := internFile_fst_lt st.graph.files file
  obtain ⟨-, hnamed, -⟩ := filesAfter_spec h.filesNodup h.filesNamed file
  have hafter : filesAfter st.graph.files file = (internFile st.graph.files file).2 := by
    rw [filesAfter, if_neg (by simpa using hfile)]
  rw [notedFile, if_neg hfile, hafter, List.getElem?_eq_getElem hlt, Option.getD_some]
  refine ⟨?_, rfl⟩
  intro hempty
  exact hnamed (by rw [hafter, ← hempty]; exact List.getElem_mem hlt)

/-- Edges are seen the same way when every node they mention keeps its symbol. -/
theorem GraphInv.abstraction_edges (h : GraphInv st) {g : CodeGraphProjection}
    (hedges : g.edges = st.graph.edges)
    (hkeep : ∀ (i : Nat) (n : CodeGraphNode), st.graph.nodes[i]? = some n →
      symbolAt g.nodes i = n.symbol) :
    (abstraction g).edges = (abstraction st.graph).edges := by
  simp only [abstraction, hedges]
  congr 1
  apply List.map_congr_left
  intro e he
  obtain ⟨⟨s, hs, -⟩, d, hd, -⟩ := h.edges e he
  simp only [edgeOf, hkeep _ s hs, hkeep _ d hd, symbolAt_of_getElem? hs,
    symbolAt_of_getElem? hd]

/-! ### Nodes -/

theorem GraphInv.lookup_updateNode (h : GraphInv st) {id : Nat} {node : CodeGraphNode}
    (hnode : st.graph.nodes[id]? = some node) (hne : node.symbol ≠ "") (kind file : String)
    (line : Nat) (s : String) :
    (updateNode st id node kind file line).lookup s =
      if s = node.symbol then
        some { node with
          kind := kind
          fileId := if file.isEmpty then node.fileId else some (internFile st.graph.files file).1
          line := if (lineOf line).isSome then lineOf line else node.line }
      else st.lookup s := by
  have hlt : id < st.graph.nodes.length := (List.getElem?_eq_some_iff.mp hnode).1
  have hid := (h.index node.symbol id).mpr ⟨hne, node, hnode, rfl⟩
  split
  · rename_i hs
    subst hs
    simp only [GraphState.lookup, updateNode, hid, Option.bind_some, List.getElem?_set_self hlt]
  · rename_i hs
    simp only [GraphState.lookup, updateNode]
    cases hi : st.symbolToId s with
    | none => rfl
    | some i =>
      have hii : id ≠ i := by
        rintro rfl
        obtain ⟨-, n, hn, hns⟩ := h.node_of_index hi
        rw [hnode] at hn
        exact hs (by rw [← hns, Option.some.inj hn])
      simp only [Option.bind_some, List.getElem?_set_ne hii]

theorem GraphInv.abstraction_updateNode (h : GraphInv st) {id : Nat} {node : CodeGraphNode}
    (hnode : st.graph.nodes[id]? = some node) (hne : node.symbol ≠ "") {kind : String}
    (hkind : kind ≠ "") (file : String) (line : Nat) :
    abstraction (updateNode st id node kind file line).graph =
      (abstraction st.graph).putNode node.symbol kind (notedFile st.graph.files file) line := by
  have h' := h.of_updateNode hnode kind file line
  have hlt : id < st.graph.nodes.length := (List.getElem?_eq_some_iff.mp hnode).1
  have hmem := List.mem_of_getElem? hnode
  obtain ⟨-, -, more, hmore⟩ := filesAfter_spec h.filesNodup h.filesNamed file
  have hfiles : (updateNode st id node kind file line).graph.files
      = filesAfter st.graph.files file := rfl
  have hold : (abstraction st.graph).nodes node.symbol = some (dataOf st.graph.files node) := by
    rw [h.abstraction_nodes, h.lookup_eq_some.mpr ⟨hne, hmem, rfl⟩, Option.map_some]
  apply SymbolGraph.ext
  · funext s
    rw [h'.abstraction_nodes, h.lookup_updateNode hnode hne, hfiles,
      SymbolGraph.putNode_nodes _ hne hkind]
    split
    · rw [Option.map_some, hold]
      -- File and line are kept where the event has none.
      simp only [dataOf, NodeData.merge, Option.bind_some, Option.some.injEq,
        NodeData.mk.injEq, true_and]
      constructor
      · by_cases hfile : file = ""
        · subst hfile
          simp [filesAfter, notedFile]
        · obtain ⟨hnoted, hget⟩ := h.getElem?_filesAfter hfile
          rw [if_neg (by simpa using hfile), if_neg hnoted, Option.bind_some, hget]
      · cases lineOf line <;> simp
    · rw [h.abstraction_nodes, hmore]
      cases hl : st.lookup s with
      | none => rfl
      | some n =>
        rw [Option.map_some, Option.map_some,
          h.dataOf_append (h.lookup_eq_some.mp hl).2.1]
  · rw [SymbolGraph.putNode_edges]
    refine h.abstraction_edges rfl ?_
    intro i n hn
    -- The symbol of the updated node stays.
    by_cases hi : id = i
    · subst hi
      rw [hnode] at hn
      rw [← Option.some.inj hn, symbolAt, updateNode, List.getElem?_set_self hlt]
      rfl
    · exact symbolAt_of_getElem? ((List.getElem?_set_ne hi).trans hn)

theorem GraphInv.abstraction_pushNode (h : GraphInv st)
    (hnew : symbol ≠ "" → st.symbolToId symbol = none) (hroom : st.graph.nodes.length < 2 ^ 32)
    {kind : String} (hkind : kind ≠ "") (file : String) (line : Nat) :
    abstraction (pushNode st symbol kind file line).graph =
      (abstraction st.graph).putNode symbol kind (notedFile st.graph.files file) line := by
  have h' := h.of_pushNode hnew kind file line hroom
  obtain ⟨-, -, more, hmore⟩ := filesAfter_spec h.filesNodup h.filesNamed file
  have hfiles : (pushNode st symbol kind file line).graph.files
      = filesAfter st.graph.files file := rfl
  -- The other symbols have the node they had.
  have hother : ∀ s, s ≠ symbol ∨ symbol = "" →
      (pushNode st symbol kind file line).lookup s = st.lookup s := by
    intro s hs
    apply Option.ext
    intro n
    rw [h'.lookup_eq_some, h.lookup_eq_some]
    simp only [pushNode, List.mem_append, List.mem_singleton]
    constructor
    · rintro ⟨hne, hn | rfl, hns⟩
      · exact ⟨hne, hn, hns⟩
      · rcases hs with hs | hs
        · exact absurd hns.symm hs
        · exact absurd (hns.symm.trans hs) hne
    · rintro ⟨hne, hn, hns⟩
      exact ⟨hne, .inl hn, hns⟩
  have hkeep : ∀ s, s ≠ symbol ∨ symbol = "" →
      (abstraction (pushNode st symbol kind file line).graph).nodes s
        = (abstraction st.graph).nodes s := by
    intro s hs
    rw [h'.abstraction_nodes, h.abstraction_nodes, hother s hs, hfiles, hmore]
    cases hl : st.lookup s with
    | none => rfl
    | some n =>
      rw [Option.map_some, Option.map_some, h.dataOf_append (h.lookup_eq_some.mp hl).2.1]
  have hedges : (abstraction (pushNode st symbol kind file line).graph).edges
      = (abstraction st.graph).edges := by
    refine h.abstraction_edges rfl ?_
    intro i n hn
    have hlt := (List.getElem?_eq_some_iff.mp hn).1
    exact symbolAt_of_getElem? ((List.getElem?_append_left hlt).trans hn)
  -- An anonymous node is no entry of the map, and carries no edge.
  by_cases hsym : symbol = ""
  · rw [SymbolGraph.putNode, if_pos (.inr hsym)]
    exact SymbolGraph.ext (funext fun s => hkeep s (.inr hsym)) hedges
  · apply SymbolGraph.ext
    · funext s
      rw [SymbolGraph.putNode_nodes _ hsym hkind]
      split
      · rename_i hs
        subst hs
        have hold : (abstraction st.graph).nodes s = none := by
          rw [h.abstraction_nodes, GraphState.lookup, hnew hsym]
          rfl
        rw [h'.abstraction_nodes, h'.lookup_eq_some.mpr
          ⟨hsym, by simp only [pushNode]; exact List.mem_concat_self, rfl⟩, Option.map_some,
          hold, hfiles]
        simp only [dataOf, NodeData.merge, Option.bind_none, Option.or_none, Option.some.injEq,
          NodeData.mk.injEq, true_and, and_true]
        by_cases hfile : file = ""
        · simp [hfile, notedFile]
        · obtain ⟨hnoted, hget⟩ := h.getElem?_filesAfter hfile
          rw [if_neg (by simpa using hfile), if_neg hnoted, Option.bind_some, hget]
      · exact hkeep s (.inl ‹_›)
    · rw [SymbolGraph.putNode_edges]
      exact hedges

theorem GraphInv.abstraction_applyNode (h : GraphInv st) (symbol kind file : String)
    (line : Nat)
    (hroom : countsAsNode symbol kind = true → st.findNode symbol = none →
      st.graph.nodes.length < 2 ^ 32) :
    abstraction (applyNode st symbol kind file line).2.graph =
      (abstraction st.graph).putNode symbol kind (notedFile st.graph.files file) line := by
  have hkind : countsAsNode symbol kind = true → kind ≠ "" := by
    rintro hcounts rfl
    simp [countsAsNode] at hcounts
  rcases applyNode_cases st symbol kind file line with
    ⟨hcounts, heq⟩ | ⟨hcounts, ⟨id, node, hfind, heq⟩ | ⟨hfind, heq⟩⟩
  · rw [heq, SymbolGraph.putNode, if_pos]
    by_contra hnone
    simp_all [countsAsNode]
  · obtain ⟨hne, hnode, rfl⟩ := h.findNode_iff.mp hfind
    rw [heq]
    exact h.abstraction_updateNode hnode hne (hkind hcounts) file line
  · rw [heq]
    exact h.abstraction_pushNode (h.symbolToId_of_findNode hfind) (hroom hcounts hfind)
      (hkind hcounts) file line

/-! ### Removal -/

/-- An end of an edge carries the symbol only if it is the node of the symbol. -/
theorem GraphInv.symbolAt_eq_iff (h : GraphInv st) {id i : Nat} {removed n : CodeGraphNode}
    (hget : st.graph.nodes[id]? = some removed) (hne : removed.symbol ≠ "")
    (hn : st.graph.nodes[i]? = some n) :
    symbolAt st.graph.nodes i = removed.symbol ↔ i = id := by
  rw [symbolAt_of_getElem? hn]
  constructor
  · intro hs
    exact h.eq_of_symbol hn hget hs (hs ▸ hne)
  · rintro rfl
    rw [hget] at hn
    rw [Option.some.inj hn]

theorem GraphInv.abstraction_deleteNode (h : GraphInv st) {id : Nat}
    (hindex : st.symbolToId symbol = some id) :
    abstraction (deleteNode st id).2.graph = (abstraction st.graph).removeNode symbol := by
  have h' := h.of_deleteNode hindex
  obtain ⟨hne, removed, hget, rfl⟩ := h.node_of_index hindex
  obtain ⟨front, last, hnodes, hid⟩ := exists_concat_of_getElem? hget
  have hgraph : (deleteNode st id).2.graph =
      { nodes := front.set id { last with id := id }
        edges := (st.graph.edges.filter fun e => e.src ≠ id ∧ e.dst ≠ id).map
          (redirect front.length id)
        files := st.graph.files } := by
    rw [← deleteNode_edges hnodes hget h.small, deleteNode_eq hnodes hget]
  apply SymbolGraph.ext
  · funext s
    rw [h'.abstraction_nodes, GraphState.lookup, h.deleteNode_symbolToId hnodes hget, hgraph]
    simp only [SymbolGraph.removeNode, FMap.erase_apply]
    split
    · rename_i hs
      subst hs
      simp [hindex]
    · rename_i hs
      rw [h.abstraction_nodes, GraphState.lookup]
      cases hi : st.symbolToId s with
      | none => rfl
      | some i =>
        obtain ⟨-, n, hn, hns⟩ := h.node_of_index hi
        have hii : i ≠ id := by
          rintro rfl
          rw [hget] at hn
          exact hs (by rw [← hns, Option.some.inj hn])
        simp only [Option.bind_some, if_neg hii, h.getElem?_moveTo hnodes hid hii hn, hn,
          Option.map_some]
        rfl
  -- The edges that stay are renamed, but keep the symbols at their ends.
  · have hsame : ∀ e ∈ st.graph.edges.filter fun e => e.src ≠ id ∧ e.dst ≠ id,
        edgeOf (front.set id { last with id := id }) (redirect front.length id e)
          = edgeOf st.graph.nodes e := by
      intro e he
      rw [List.mem_filter] at he
      have hends : e.src ≠ id ∧ e.dst ≠ id := by simpa using he.2
      obtain ⟨⟨s, hs, -⟩, d, hd, -⟩ := h.edges e he.1
      simp only [edgeOf, redirect_eq, symbolAt_of_getElem? hs, symbolAt_of_getElem? hd,
        symbolAt_of_getElem? (h.getElem?_moveTo hnodes hid hends.1 hs),
        symbolAt_of_getElem? (h.getElem?_moveTo hnodes hid hends.2 hd)]
    -- The edges that go are those with the symbol at one of their ends.
    have hincident : st.graph.edges.filter (fun e => e.src ≠ id ∧ e.dst ≠ id)
        = st.graph.edges.filter ((fun t : String × String × String =>
            decide (t.1 ≠ removed.symbol ∧ t.2.1 ≠ removed.symbol)) ∘ edgeOf st.graph.nodes) := by
      apply List.filter_congr
      intro e he
      obtain ⟨⟨s, hs, -⟩, d, hd, -⟩ := h.edges e he
      simp only [Function.comp, edgeOf, ne_eq, h.symbolAt_eq_iff hget hne hs,
        h.symbolAt_eq_iff hget hne hd]
    rw [hgraph]
    simp only [abstraction, SymbolGraph.removeNode, Multiset.filter_coe, List.map_map]
    rw [List.filter_map, ← hincident]
    congr 1
    exact List.map_congr_left hsame

/-! ### Edges -/

/-- The map has an entry exactly for the symbols of the index. -/
theorem GraphInv.abstraction_nodes_isSome (h : GraphInv st) (symbol : String) :
    ((abstraction st.graph).nodes symbol).isSome = (st.symbolToId symbol).isSome := by
  rw [h.abstraction_nodes, GraphState.lookup]
  cases hid : st.symbolToId symbol with
  | none => rfl
  | some id =>
    obtain ⟨-, n, hn, -⟩ := h.node_of_index hid
    simp [hn]

theorem GraphInv.symbolAt_of_index (h : GraphInv st) {id : Nat}
    (hid : st.symbolToId symbol = some id) : symbolAt st.graph.nodes id = symbol := by
  obtain ⟨-, n, hn, hs⟩ := h.node_of_index hid
  rw [symbolAt_of_getElem? hn, hs]

/-- The index of an end of an edge, from the symbol at it. -/
theorem GraphInv.index_of_symbolAt (h : GraphInv st) {i : Nat} (hn : st.graph.nodes[i]? = some n)
    (hne : n.symbol ≠ "") :
    st.symbolToId (symbolAt st.graph.nodes i) = some i := by
  rw [symbolAt_of_getElem? hn]
  exact (h.index _ _).mpr ⟨hne, n, hn, rfl⟩

theorem GraphInv.abstraction_addEdge (h : GraphInv st) (src dst kind : String) :
    abstraction (applyRustcEventToGraph (.edgeDefined src dst kind) st false).2.graph =
      (abstraction st.graph).addEdge src dst kind := by
  simp only [applyRustcEventToGraph, SymbolGraph.addEdge, h.abstraction_nodes_isSome]
  cases hends : st.ends src dst with
  | none =>
    rw [if_neg]
    rintro ⟨hs, hd⟩
    obtain ⟨s, hs⟩ := Option.isSome_iff_exists.mp hs
    obtain ⟨d, hd⟩ := Option.isSome_iff_exists.mp hd
    rw [GraphState.ends_eq_some.mpr ⟨hs, hd⟩] at hends
    cases hends
  | some ids =>
    obtain ⟨s, d⟩ := ids
    obtain ⟨hs, hd⟩ := GraphState.ends_eq_some.mp hends
    rw [if_pos ⟨by simp [hs], by simp [hd]⟩]
    apply SymbolGraph.ext
    · rfl
    · show (↑((st.graph.edges ++ [_]).map (edgeOf st.graph.nodes)) :
        Multiset (String × String × String)) = _
      rw [List.map_append, List.map_singleton]
      simp only [edgeOf, h.symbolAt_of_index hs, h.symbolAt_of_index hd]
      exact Multiset.coe_eq_coe.mpr (List.perm_append_singleton _ _)

theorem GraphInv.abstraction_removeEdge (h : GraphInv st) (src dst kind : String) :
    abstraction (applyRustcEventToGraph (.edgeRemoved src dst kind) st false).2.graph =
      (abstraction st.graph).removeEdge src dst kind := by
  -- An edge has these symbols at its ends exactly if it has the numbers of the index.
  have hiff : ∀ e ∈ st.graph.edges, edgeOf st.graph.nodes e = (src, dst, kind) ↔
      st.ends src dst = some (e.src, e.dst) ∧ e.kind = kind := by
    intro e he
    obtain ⟨⟨s, hs, hsne⟩, d, hd, hdne⟩ := h.edges e he
    rw [GraphState.ends_eq_some]
    simp only [edgeOf, Prod.mk.injEq]
    constructor
    · rintro ⟨rfl, rfl, hk⟩
      exact ⟨⟨h.index_of_symbolAt hs hsne, h.index_of_symbolAt hd hdne⟩, hk⟩
    · rintro ⟨⟨hsi, hdi⟩, hk⟩
      exact ⟨h.symbolAt_of_index hsi, h.symbolAt_of_index hdi, hk⟩
  have hfilter : (st.graph.edges.map (edgeOf st.graph.nodes)).filter (fun t => t ≠ (src, dst, kind))
      = (st.graph.edges.filter fun e =>
          ¬ (st.ends src dst = some (e.src, e.dst) ∧ e.kind = kind)).map
            (edgeOf st.graph.nodes) := by
    rw [List.filter_map]
    congr 1
    apply List.filter_congr
    intro e he
    simp only [Function.comp, ne_eq, hiff e he]
  have hedges : (abstraction (applyRustcEventToGraph (.edgeRemoved src dst kind) st
      false).2.graph).edges = ((abstraction st.graph).removeEdge src dst kind).edges := by
    simp only [SymbolGraph.removeEdge, abstraction, Multiset.filter_coe, hfilter,
      applyRustcEventToGraph]
    cases hends : st.ends src dst with
    | none => simp
    | some ids =>
      obtain ⟨s, d⟩ := ids
      simp only [GraphState.withEdges, Option.some.injEq, Prod.mk.injEq]
      congr 2
      apply List.filter_congr
      intro e _
      simp only [eq_comm, and_assoc]
  apply SymbolGraph.ext
  · simp only [applyRustcEventToGraph]
    cases st.ends src dst <;> rfl
  · exact hedges

/-- A symbol without a node has no edges either. -/
theorem GraphInv.removeNode_of_index_none (h : GraphInv st) (hid : st.symbolToId symbol = none) :
    (abstraction st.graph).removeNode symbol = abstraction st.graph := by
  have hnone : (abstraction st.graph).nodes symbol = none := by
    rw [h.abstraction_nodes, GraphState.lookup, hid]
    rfl
  apply SymbolGraph.ext
  · funext s
    simp only [SymbolGraph.removeNode, FMap.erase_apply]
    split
    · rename_i hs
      rw [hs, hnone]
    · rfl
  · show (abstraction st.graph).edges.filter (fun e => e.1 ≠ symbol ∧ e.2.1 ≠ symbol)
      = (abstraction st.graph).edges
    rw [Multiset.filter_eq_self]
    intro t ht
    obtain ⟨e, he, rfl⟩ := List.mem_map.mp (Multiset.mem_coe.mp ht)
    obtain ⟨⟨s, hs, hsne⟩, d, hd, hdne⟩ := h.edges e he
    constructor
    · intro heq
      have hsome := h.index_of_symbolAt hs hsne
      rw [show symbolAt st.graph.nodes e.src = symbol from heq, hid] at hsome
      cases hsome
    · intro heq
      have hsome := h.index_of_symbolAt hd hdne
      rw [show symbolAt st.graph.nodes e.dst = symbol from heq, hid] at hsome
      cases hsome

/-- A file of its own is not part of the graph of symbols. -/
theorem GraphInv.abstraction_fileSeen (h : GraphInv st) (path : String) :
    abstraction { st.graph with files := st.graph.files ++ [path] } = abstraction st.graph := by
  apply SymbolGraph.ext
  · funext s
    simp only [abstraction]
    split
    · rfl
    · cases hfind : st.graph.nodes.find? (·.symbol == s) with
      | none => rfl
      | some n =>
        rw [Option.map_some, Option.map_some, h.dataOf_append (List.mem_of_find?_eq_some hfind)]
  · rfl

end Abstraction

/-! ### Simulation -/

theorem abstraction_empty : abstraction GraphState.empty.graph = SymbolGraph.empty := by
  apply SymbolGraph.ext
  · funext s
    simp [abstraction, GraphState.empty, CodeGraphProjection.default, SymbolGraph.empty]
  · rfl

/-- The event with other files. -/
def RustcEvent.withFile (noted : String → String) : RustcEvent → RustcEvent
  | .nodeDefined symbol kind file line => .nodeDefined symbol kind (noted file) line
  | .nodeUpdated symbol kind file line => .nodeUpdated symbol kind (noted file) line
  | event => event

/-- Each event does to the projection what it does to the graph of symbols, with the
    file that is noted. -/
theorem GraphInv.abstraction_step {st : GraphState} (h : GraphInv st)
    {call : RustcEvent × Bool} (hfits : NodeFits st call) :
    abstraction (graphMachine.step st call).graph =
      symbolMachine.step (abstraction st.graph)
        (call.1.withFile (notedFile st.graph.files), call.2) := by
  obtain ⟨event, clear⟩ := call
  cases event with
  | sessionStart project =>
    cases clear with
    | true => exact abstraction_empty
    | false => rfl
  | nodeDefined symbol kind file line =>
    exact h.abstraction_applyNode symbol kind file line
      fun hcounts => hfits symbol file (if_pos hcounts)
  | nodeUpdated symbol kind file line =>
    exact h.abstraction_applyNode symbol kind file line
      fun hcounts => hfits symbol file (if_pos hcounts)
  | nodeRemoved symbol =>
    simp only [graphMachine, symbolMachine, SymbolGraph.apply, applyRustcEventToGraph,
      RustcEvent.withFile]
    cases hid : st.symbolToId symbol with
    | none => exact (h.removeNode_of_index_none hid).symm
    | some id => exact h.abstraction_deleteNode hid
  | edgeDefined src dst kind => exact h.abstraction_addEdge src dst kind
  | edgeRemoved src dst kind => exact h.abstraction_removeEdge src dst kind
  | fileSeen path =>
    simp only [graphMachine, symbolMachine, SymbolGraph.apply, applyRustcEventToGraph,
      RustcEvent.withFile]
    split
    · rfl
    · exact h.abstraction_fileSeen path
  | callsiteObserved | symbolDefined | spanDefined | panicCaptured | warningCaptured
  | compilationUnitFinished | invariantViolation => rfl

theorem putNode_withFile (g : SymbolGraph) {symbol kind file : String} {line : Nat}
    {files : List String}
    (hfits : countsAsNode symbol kind = true → file ≠ "" → filePosition files file < 2 ^ 32) :
    g.putNode symbol kind (notedFile files file) line = g.putNode symbol kind file line := by
  by_cases hnone : kind = "" ∨ symbol = ""
  · rw [SymbolGraph.putNode, SymbolGraph.putNode, if_pos hnone, if_pos hnone]
  · rw [notedFile_of_fits (hfits (by simp_all [countsAsNode]))]

theorem symbolMachine_withFile {st : GraphState} {call : RustcEvent × Bool}
    (hfits : FileFits st call) (g : SymbolGraph) :
    symbolMachine.step g (call.1.withFile (notedFile st.graph.files), call.2) =
      symbolMachine.step g call := by
  obtain ⟨event, clear⟩ := call
  cases event with
  | nodeDefined symbol kind file line =>
    exact putNode_withFile g fun hcounts => hfits symbol file (if_pos hcounts)
  | nodeUpdated symbol kind file line =>
    exact putNode_withFile g fun hcounts => hfits symbol file (if_pos hcounts)
  | _ => rfl

/-- **The projection refines the graph of symbols.**  From the empty projection, as long
    as no event meets a number that is cut, seeing the result as a graph of symbols is
    the same as applying the events to a graph of symbols. -/
theorem projection_refines_symbols (calls : List (RustcEvent × Bool))
    (hfits : graphMachine.Along (fun st call => NodeFits st call ∧ FileFits st call)
      .empty calls) :
    abstraction (graphMachine.run .empty calls).graph = symbolMachine.run .empty calls := by
  have hsim := graphMachine.run_related symbolMachine
    (R := fun st g => GraphInv st ∧ abstraction st.graph = g)
    (t := .empty) ?_ ⟨.empty, abstraction_empty⟩ hfits
  · exact hsim.2
  · rintro st g call ⟨hinv, rfl⟩ ⟨hnode, hfile⟩
    exact ⟨hinv.step call hnode,
      (hinv.abstraction_step hnode).trans (symbolMachine_withFile hfile _)⟩

/-- A node with an edge to itself. -/
def selfEdge : List (RustcEvent × Bool) :=
  [(.nodeDefined "x" "FN" "" 0, false), (.edgeDefined "x" "x" "calls", false)]

theorem projection_refines_symbols_call :
    abstraction (graphMachine.run .empty selfEdge).graph = symbolMachine.run .empty selfEdge := by
  apply projection_refines_symbols
  simp only [selfEdge, Machine.along_cons, Machine.along_nil, and_true]
  refine ⟨⟨?_, ?_⟩, ?_, ?_⟩
  · intro _ _ _ _
    decide
  · rintro symbol file hnode hfile
    cases hnode
    exact absurd rfl hfile
  · rintro _ _ hnode
    cases hnode
  · rintro _ _ hnode
    cases hnode

/-! ### Kinds and edges -/

/-- The same symbols, kinds and edges; files and lines may differ. -/
structure SameKinds (g g' : SymbolGraph) : Prop where
  kinds : ∀ symbol, (g.nodes symbol).map (·.kind) = (g'.nodes symbol).map (·.kind)
  edges : g.edges = g'.edges

theorem SameKinds.isSome {g g' : SymbolGraph} (h : SameKinds g g') (symbol : String) :
    (g.nodes symbol).isSome = (g'.nodes symbol).isSome := by
  have hkind := congrArg Option.isSome (h.kinds symbol)
  rwa [Option.isSome_map, Option.isSome_map] at hkind

theorem SameKinds.putNode {g g' : SymbolGraph} (h : SameKinds g g') (symbol kind : String)
    (file file' : String) (line : Nat) :
    SameKinds (g.putNode symbol kind file line) (g'.putNode symbol kind file' line) := by
  refine ⟨?_, by simpa using h.edges⟩
  intro s
  unfold SymbolGraph.putNode
  split
  · exact h.kinds s
  · simp only [FMap.insert_apply]
    split
    · rfl
    · exact h.kinds s

theorem SameKinds.step {g g' : SymbolGraph} (h : SameKinds g g') (call : RustcEvent × Bool)
    (noted : String → String) :
    SameKinds (symbolMachine.step g (call.1.withFile noted, call.2))
      (symbolMachine.step g' call) := by
  obtain ⟨event, clear⟩ := call
  cases event with
  | sessionStart project =>
    cases clear with
    | true => exact ⟨fun _ => rfl, rfl⟩
    | false => exact h
  | nodeDefined symbol kind file line => exact h.putNode symbol kind _ _ line
  | nodeUpdated symbol kind file line => exact h.putNode symbol kind _ _ line
  | nodeRemoved symbol =>
    constructor
    · intro s
      show (FMap.erase g.nodes symbol s).map _ = (FMap.erase g'.nodes symbol s).map _
      simp only [FMap.erase_apply]
      split
      · rfl
      · exact h.kinds s
    · show Multiset.filter _ g.edges = _
      rw [h.edges]
      rfl
  | edgeDefined src dst kind =>
    show SameKinds (g.addEdge src dst kind) (g'.addEdge src dst kind)
    refine ⟨by simpa using h.kinds, ?_⟩
    simp only [SymbolGraph.addEdge, h.isSome, h.edges]
    split
    · rfl
    · exact h.edges
  | edgeRemoved src dst kind =>
    refine ⟨h.kinds, ?_⟩
    show Multiset.filter _ g.edges = _
    rw [h.edges]
    rfl
  | _ => exact h

/-- Kinds and edges do not depend on the files. -/
theorem projection_sameKinds {calls : List (RustcEvent × Bool)}
    (hfits : graphMachine.Along NodeFits .empty calls) :
    SameKinds (abstraction (graphMachine.run .empty calls).graph)
      (symbolMachine.run .empty calls) := by
  have hsim := graphMachine.run_related symbolMachine
    (R := fun st g => GraphInv st ∧ SameKinds (abstraction st.graph) g)
    (t := .empty) ?_ ⟨.empty, abstraction_empty ▸ ⟨fun _ => rfl, rfl⟩⟩ hfits
  · exact hsim.2
  · rintro st g call ⟨hinv, hsame⟩ hnode
    refine ⟨hinv.step call hnode, ?_⟩
    rw [hinv.abstraction_step hnode]
    exact hsame.step call _

/-! ### The edge of another node -/

theorem symbols_run_anonymousModule (count : Nat) :
    symbolMachine.run .empty (List.replicate count anonymousModule) = .empty := by
  induction count with
  | zero => rfl
  | succ count ih =>
    rw [List.replicate_succ', Machine.run_snoc, ih]
    rfl

/-- A node behind `count` modules gets the number of one of them. -/
theorem edges_after_modules {count : Nat} (hcount : 2 ^ 32 ≤ count) :
    (abstraction (graphMachine.run .empty
        (List.replicate count anonymousModule ++ selfEdge)).graph).edges ≠
      (symbolMachine.run .empty (List.replicate count anonymousModule ++ selfEdge)).edges := by
  have hlt : asU32 count < count := (asU32_lt count).trans_le hcount
  have hsymbols : (symbolMachine.run .empty
      (List.replicate count anonymousModule ++ selfEdge)).edges = {("x", "x", "calls")} := by
    rw [Machine.run_append, symbols_run_anonymousModule]
    rfl
  let modules := (List.range count).map fun i => anonymousNode (asU32 i)
  have hgraph : (graphMachine.run .empty
      (List.replicate count anonymousModule ++ selfEdge)).graph =
      { nodes := modules ++ [⟨asU32 count, "FN", "x", none, none⟩]
        edges := [⟨asU32 count, asU32 count, "calls"⟩]
        files := [] } := by
    rw [Machine.run_append, run_anonymousModule]
    simp [selfEdge, graphMachine, applyRustcEventToGraph, applyNode, GraphState.findNode,
      pushNode, GraphState.ends, GraphState.withEdges, modules, lineOf]
  have hmodule : symbolAt (modules ++ [⟨asU32 count, "FN", "x", none, none⟩]) (asU32 count) =
      "" := by
    have hget : modules[asU32 count]? = some (anonymousNode (asU32 (asU32 count))) := by
      rw [List.getElem?_map, List.getElem?_range hlt, Option.map_some]
    rw [symbolAt, List.getElem?_append_left (List.getElem?_eq_some_iff.mp hget).1, hget]
    rfl
  rw [hsymbols, hgraph]
  intro heq
  have hmem : ("x", "x", "calls") ∈ (abstraction
      { nodes := modules ++ [⟨asU32 count, "FN", "x", none, none⟩]
        edges := [⟨asU32 count, asU32 count, "calls"⟩]
        files := [] }).edges := by
    rw [heq]
    exact Multiset.mem_singleton_self _
  simp [abstraction, edgeOf, hmodule] at hmem

/-- The node `x` is number 2 ^ 32, which is cut to 0, and so is its edge. -/
theorem edge_at_wrong_symbols :
    abstraction (graphMachine.run .empty
        (List.replicate (2 ^ 32) anonymousModule ++ selfEdge)).graph ≠
      symbolMachine.run .empty (List.replicate (2 ^ 32) anonymousModule ++ selfEdge) := by
  intro heq
  exact edges_after_modules Nat.le.refl (by rw [heq])

end Canon.Graph
