import Canon.Graph.GraphBin
import Canon.Lib.CountingSort

/-! # The second loader of the graph

    `artifacts_loader.rs` has a decoder of its own for the binary file, which puts the
    name of the file into a node in place of its number, and builds the adjacency rows
    from the edges.  `csr.rs` builds the same rows and sorts them.

    * `loadGraphBin_eq`: the decoder returns what the writer's decoder returns,
    * `loaders_and_rows_agree`: and the two adjacencies have the same rows up to the
      order in a row.
-/

namespace Canon.Graph.ArtifactsLoader

open Bin CountingSort

/-! ### Model -/

structure Node where
  id : UInt32
  kind : String
  symbol : String
  file : String
  line : Option UInt32
deriving DecidableEq, Repr

structure CsrGraph where
  rowPtr : List Nat
  colIdx : List UInt32
deriving DecidableEq, Repr

/-- The name of the file; the empty text without a number or for a number that is too
    large. -/
def fileName (files : List String) (fileId : Nat) : String :=
  if fileId = none32 then "" else (files[fileId]?).getD ""

def readNode (table : Bytes) (files : List String) (data : Bytes) (pos : Nat) : Node where
  id := UInt32.ofNat (readLe data pos 4)
  kind := nodeKindStr (readByte data (pos + 4))
  symbol := readSymbol table (readLe data (pos + 13) 4) (readLe data (pos + 17) 4)
  file := fileName files (readLe data (pos + 5) 4)
  line := some32 (readLe data (pos + 9) 4)

def loadGraphBin (data : Bytes) :
    Except LoadError (List Node × List Bin.CodeGraphEdge × List String) :=
  Bin.loadGraphBinWith (fun files table => readNode table files data) data

/-- The row of an edge. -/
def source (edge : Bin.CodeGraphEdge) : Nat := edge.src.toNat

def rowPtrOf (nodeCount : Nat) (edges : List Bin.CodeGraphEdge) : List Nat :=
  prefixSums asU32 (countRows nodeCount source asU32 edges)

def buildCsr (nodeCount : Nat) (edges : List Bin.CodeGraphEdge) : CsrGraph where
  rowPtr := rowPtrOf nodeCount edges
  colIdx := (scatter nodeCount source asU32 Bin.CodeGraphEdge.dst 0 edges).cells

/-- `build_csr_graph`: the same with sorted rows. -/
def buildCsrGraph (nodeCount : Nat) (edges : List Bin.CodeGraphEdge) : CsrGraph where
  rowPtr := rowPtrOf nodeCount edges
  colIdx := sortRows (fun a b => decide (a ≤ b)) (rowPtrOf nodeCount edges) nodeCount
    (scatter nodeCount source asU32 Bin.CodeGraphEdge.dst 0 edges).cells

/-! ### The decoders -/

/-- The node with the name of its file. -/
def withFile (files : List String) (node : Bin.CodeGraphNode) : Node where
  id := node.id
  kind := node.kind
  symbol := node.symbol
  file := (node.fileId.bind fun id => files[id.toNat]?).getD ""
  line := node.line

theorem readNode_eq (table : Bytes) (files : List String) (data : Bytes) (pos : Nat) :
    readNode table files data pos = withFile files (Bin.readNode table data pos) := by
  have hlt := readLe_lt data (pos + 5)
  have hfile : fileName files (readLe data (pos + 5) 4) =
      ((some32 (readLe data (pos + 5) 4)).bind fun id => files[id.toNat]?).getD "" := by
    rw [fileName, some32]
    split
    · rfl
    · rw [Option.bind_some, UInt32.toNat_ofNat_of_lt' hlt]
  rw [readNode, hfile]
  rfl

theorem readEach_map {α β : Type} (f : α → β) (read : Nat → α) (width count pos : Nat) :
    readEach (fun pos => f (read pos)) width count pos =
      (readEach read width count pos).map f := by
  induction count generalizing pos with
  | zero => rfl
  | succ count ih =>
    rw [readEach, readEach, List.map_cons, ih]

/-- Nodes that are made of what is read are read that way. -/
theorem loadGraphBinWith_map {α β : Type} (f : List String → α → β)
    (node : List String → Bytes → Nat → α) (data : Bytes) :
    Bin.loadGraphBinWith (fun files table pos => f files (node files table pos)) data =
      (Bin.loadGraphBinWith node data).map fun graph =>
        (graph.1.map (f graph.2.2), graph.2.1, graph.2.2) := by
  rw [Bin.loadGraphBinWith, Bin.loadGraphBinWith]
  by_cases hsmall : data.length < headerSize
  · rw [if_pos hsmall, if_pos hsmall]
    rfl
  · rw [if_neg hsmall, if_neg hsmall]
    by_cases hmagic : data.take 4 ≠ binMagic
    · rw [if_pos hmagic, if_pos hmagic]
      rfl
    · rw [if_neg hmagic, if_neg hmagic]
      by_cases hversion : readLe data 4 4 ≠ 1
      · rw [if_pos hversion, if_pos hversion]
        rfl
      · rw [if_neg hversion, if_neg hversion]
        dsimp only
        split
        · rfl
        · split
          · rfl
          · cases readFiles (data.drop (readLe data 20 4)) (readLe data 16 4) 0 with
            | error e => rfl
            | ok files =>
              dsimp only
              rw [readEach_map (f files)]
              rfl

/-- The two decoders accept the same files and return the same graph. -/
theorem loadGraphBin_eq (data : Bytes) :
    loadGraphBin data = (Bin.loadGraphBin data).map fun graph =>
      (graph.1.map (withFile graph.2.2), graph.2.1, graph.2.2) := by
  have hnode : (fun files table => readNode table files data) = fun files table pos =>
      withFile files (Bin.readNode table data pos) := by
    funext files table pos
    exact readNode_eq table files data pos
  rw [loadGraphBin, hnode, loadGraphBinWith_map withFile]
  rfl

/-! ### The rows -/

/-- The row of a node. -/
def CsrGraph.row (graph : CsrGraph) (v : Nat) : List UInt32 :=
  slice graph.colIdx (graph.rowPtr.getD v 0) (graph.rowPtr.getD (v + 1) 0)

/-- Where the edges out of a node lead. -/
def destinations (edges : List Bin.CodeGraphEdge) (v : Nat) : List UInt32 :=
  (edges.filter fun edge => decide (source edge = v)).map Bin.CodeGraphEdge.dst

section Rows

variable {nodeCount : Nat} {edges : List Bin.CodeGraphEdge} {v : Nat}

theorem asU32_of_le (hfits : edges.length < 2 ^ 32) : ∀ m ≤ edges.length, asU32 m = m := by
  intro m hm
  exact Nat.mod_eq_of_lt (Nat.lt_of_le_of_lt hm hfits)

theorem getD_rowPtrOf (hfits : edges.length < 2 ^ 32) {k : Nat} (hk : k ≤ nodeCount) :
    (rowPtrOf nodeCount edges).getD k 0 = below source edges k :=
  getD_rowPtr (asU32_of_le hfits) (Nat.le_refl _) hk

/-- The rows are filled in the order of the edges. -/
theorem row_buildCsr (hfits : edges.length < 2 ^ 32) (hv : v < nodeCount) :
    (buildCsr nodeCount edges).row v = destinations edges v := by
  show slice _ ((rowPtrOf nodeCount edges).getD v 0) ((rowPtrOf nodeCount edges).getD (v + 1) 0) = _
  rw [getD_rowPtrOf hfits (by omega), getD_rowPtrOf hfits (by omega)]
  exact row_scatter (asU32_of_le hfits) (Nat.le_refl _) 0 hv

theorem row_buildCsrGraph (hfits : edges.length < 2 ^ 32) (hv : v < nodeCount) :
    (buildCsrGraph nodeCount edges).row v =
      (destinations edges v).mergeSort fun a b => decide (a ≤ b) := by
  have hlength := (@placed_scatter _ _ nodeCount source asU32 Bin.CodeGraphEdge.dst edges _
    (asU32_of_le hfits) (Nat.le_refl _) 0).length
  have hmono : ∀ k l, k ≤ l → l ≤ nodeCount →
      (rowPtrOf nodeCount edges).getD k 0 ≤ (rowPtrOf nodeCount edges).getD l 0 := by
    intro k l hkl hl
    rw [getD_rowPtrOf hfits (by omega), getD_rowPtrOf hfits hl]
    exact below_mono source edges hkl
  have hend : (rowPtrOf nodeCount edges).getD nodeCount 0 ≤
      (scatter nodeCount source asU32 Bin.CodeGraphEdge.dst 0 edges).cells.length := by
    rw [getD_rowPtrOf hfits (Nat.le_refl _), hlength]
    exact below_le_length source edges nodeCount
  have hrow : slice (buildCsr nodeCount edges).colIdx
      ((rowPtrOf nodeCount edges).getD v 0) ((rowPtrOf nodeCount edges).getD (v + 1) 0) =
        destinations edges v := row_buildCsr hfits hv
  rw [← hrow]
  exact slice_sortRows hmono hend hv

end Rows

/-- The decoders agree on every file, and the builders on every graph up to the order
    within a row. -/
theorem loaders_and_rows_agree (data : Bytes) (nodeCount : Nat) (edges : List Bin.CodeGraphEdge)
    (hfits : edges.length < 2 ^ 32) :
    (loadGraphBin data = (Bin.loadGraphBin data).map fun graph =>
      (graph.1.map (withFile graph.2.2), graph.2.1, graph.2.2)) ∧
    (buildCsr nodeCount edges).rowPtr = (buildCsrGraph nodeCount edges).rowPtr ∧
    ∀ v < nodeCount, ((buildCsr nodeCount edges).row v).Perm (destinations edges v) ∧
      ((buildCsrGraph nodeCount edges).row v).Perm (destinations edges v) ∧
      ((buildCsrGraph nodeCount edges).row v).Pairwise (· ≤ ·) := by
  refine ⟨loadGraphBin_eq data, rfl, ?_⟩
  intro v hv
  rw [row_buildCsr hfits hv, row_buildCsrGraph hfits hv]
  refine ⟨List.Perm.refl _, List.mergeSort_perm _ _, ?_⟩
  have hsorted := @List.pairwise_mergeSort _ (fun a b : UInt32 => decide (a ≤ b))
    (fun a b c hab hbc => by
      rw [decide_eq_true_eq] at hab hbc ⊢
      exact UInt32.le_trans hab hbc)
    (fun a b => by
      rw [Bool.or_eq_true, decide_eq_true_eq, decide_eq_true_eq]
      exact UInt32.le_total a b)
    (destinations edges v)
  exact hsorted.imp fun h => of_decide_eq_true h

/-- Two edges out of the second node in the wrong order, and one out of no node. -/
theorem loaders_and_rows_agree_sample :
    let edges : List Bin.CodeGraphEdge := [⟨1, 2, "CALL"⟩, ⟨7, 0, "FLOW"⟩, ⟨1, 0, "CALL"⟩]
    edges.length < 2 ^ 32 ∧ (buildCsr 2 edges).rowPtr = [0, 0, 2] ∧
      (buildCsr 2 edges).row 1 = [2, 0] ∧ ((buildCsrGraph 2 edges).row 1).Perm [2, 0] ∧
      ((buildCsrGraph 2 edges).row 1).Pairwise (· ≤ ·) := by
  intro edges
  have hfits : edges.length < 2 ^ 32 := by decide
  have hall := loaders_and_rows_agree [] 2 edges hfits
  have hrow := hall.2.2 1 (by decide)
  exact ⟨hfits, by decide, by decide, hrow.2.1, hrow.2.2⟩

end Canon.Graph.ArtifactsLoader
