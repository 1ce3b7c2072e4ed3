import Mathlib.Data.List.Nodup
import Mathlib.Data.List.Perm.Basic
import Mathlib.Data.String.Basic
import Mathlib.Logic.Equiv.Basic
import Canon.Graph.Projection

/-! # Normal form of the graph

    `normalize_graph` sorts the files by name, renumbers the references of the nodes,
    and sorts nodes and edges.  The numbers of the files are positions cut to a `u32`,
    so that with more than 2 ^ 32 files two of them share a number.

    * `Renumbered`: two graphs that differ in the numbers of the files and in order,
    * `Canonical`: normalising keeps the graph, and is one for all that differ so,
    * `canonical_of_fit`: it is canonical while no number is cut,
    * `Canonical.fit`: with a file too many some arrangement loses a path.
-/

namespace Canon.Graph

/-! ### Model -/

/-- Files by name, and by number where the names are the same. -/
def fileOrder (a b : Nat × String) : Bool :=
  decide (a.2 < b.2 ∨ a.2 = b.2 ∧ a.1 ≤ b.1)

def nodeOrder (a b : CodeGraphNode) : Bool := decide (a.id ≤ b.id)

def edgeOrder (a b : CodeGraphEdge) : Bool :=
  decide (a.src < b.src ∨ a.src = b.src ∧
    (a.dst < b.dst ∨ a.dst = b.dst ∧ a.kind ≤ b.kind))

variable (files : List String)

/-- The files with their old numbers, in the new order. -/
def indexedFiles : List (Nat × String) :=
  (files.zipIdx.map fun e => (asU32 e.2, e.1)).mergeSort fileOrder

def normalizedFiles : List String := (indexedFiles files).map Prod.snd

/-- From old numbers to new ones; of files that share an old number the last one counts. -/
def fileIdMap : FMap Nat Nat :=
  FMap.empty.insertAll ((indexedFiles files).zipIdx.map fun e => (e.1.1, asU32 e.2))

/-- A number that is not in the map stays. -/
def renumberFile (map : FMap Nat Nat) (node : CodeGraphNode) : CodeGraphNode :=
  match node.fileId with
  | none => node
  | some oldId =>
    match map oldId with
    | none => node
    | some newId => { node with fileId := some newId }

def normalizeGraph (g : CodeGraphProjection) : CodeGraphProjection where
  nodes := (g.nodes.map (renumberFile (fileIdMap g.files))).mergeSort nodeOrder
  edges := g.edges.mergeSort edgeOrder
  files := normalizedFiles g.files

/-! ### What a graph says -/

/-- A node with the path of its file. -/
structure NodeDescription where
  id : Nat
  kind : String
  symbol : String
  file : Option String
  line : Option Nat
deriving DecidableEq, Repr

def describe (node : CodeGraphNode) : NodeDescription where
  id := node.id
  kind := node.kind
  symbol := node.symbol
  file := node.fileId.bind fun id => files[id]?
  line := node.line

/-- The node a description comes from, in given files. -/
def NodeDescription.node (d : NodeDescription) : CodeGraphNode where
  id := d.id
  kind := d.kind
  symbol := d.symbol
  fileId := d.file.map fun path => files.idxOf path
  line := d.line

/-- Identifiers and file names are told apart, and every file number is one, and a `u32`. -/
structure WellNumbered (g : CodeGraphProjection) : Prop where
  ids : (g.nodes.map (·.id)).Nodup
  names : g.files.Nodup
  inRange : ∀ n ∈ g.nodes, ∀ id, n.fileId = some id → id < g.files.length
  narrow : ∀ n ∈ g.nodes, ∀ id, n.fileId = some id → id < 2 ^ 32

/-- The same graph with other file numbers and in another order. -/
def Renumbered (g g' : CodeGraphProjection) : Prop :=
  ∃ number : Nat → Nat, (∀ i < g.files.length, g'.files[number i]? = g.files[i]?) ∧
    g'.files.Perm g.files ∧
    g'.nodes.Perm (g.nodes.map fun n => { n with fileId := n.fileId.map number }) ∧
    g'.edges.Perm g.edges

/-- What is asked of the normal form: it keeps what the nodes say and the edges, stays when
    it is normalised again, and is the same for all numberings and orders. -/
structure Canonical (g : CodeGraphProjection) : Prop where
  nodes : ((normalizeGraph g).nodes.map (describe (normalizeGraph g).files)).Perm
    (g.nodes.map (describe g.files))
  edges : (normalizeGraph g).edges.Perm g.edges
  again : normalizeGraph (normalizeGraph g) = normalizeGraph g
  unique : ∀ g', Renumbered g g' → WellNumbered g' → normalizeGraph g' = normalizeGraph g

/-- No number of a file is cut, or none is used. -/
def FileNumbersFit (g : CodeGraphProjection) : Prop :=
  g.files.length ≤ 2 ^ 32 ∨ ∀ n ∈ g.nodes, n.fileId = none

section Described

variable {g g' : CodeGraphProjection}

theorem Renumbered.fit (h : Renumbered g g') (hfit : FileNumbersFit g) : FileNumbersFit g' := by
  obtain ⟨number, _, hperm, hnodes, _⟩ := h
  rcases hfit with hfit | hnone
  · exact .inl (hperm.length_eq ▸ hfit)
  · right
    intro n' hn'
    obtain ⟨n, hn, rfl⟩ := List.mem_map.mp (hnodes.mem_iff.mp hn')
    show n.fileId.map number = none
    rw [hnone n hn]
    rfl

theorem Renumbered.wellNumbered (h : Renumbered g g') (hg : WellNumbered g)
    (hnarrow : ∀ n ∈ g'.nodes, ∀ id, n.fileId = some id → id < 2 ^ 32) : WellNumbered g' := by
  obtain ⟨number, hfiles, hperm, hnodes, hedges⟩ := h
  refine ⟨?_, hperm.nodup_iff.mpr hg.names, ?_, hnarrow⟩
  · have hids : (g'.nodes.map (·.id)).Perm (g.nodes.map (·.id)) := by
      have hmap := hnodes.map (·.id)
      rw [List.map_map] at hmap
      exact hmap
    exact hids.nodup_iff.mpr hg.ids
  · intro n' hn' id hid
    obtain ⟨n, hn, rfl⟩ := List.mem_map.mp (hnodes.mem_iff.mp hn')
    obtain ⟨old, hold, rfl⟩ := Option.map_eq_some_iff.mp hid
    have hlt := hg.inRange n hn old hold
    have hget := hfiles old hlt
    rw [List.getElem?_eq_getElem hlt] at hget
    exact (List.getElem?_eq_some_iff.mp hget).1

/-- The nodes say the same. -/
theorem Renumbered.descriptions (h : Renumbered g g') (hg : WellNumbered g) :
    (g'.nodes.map (describe g'.files)).Perm (g.nodes.map (describe g.files)) := by
  obtain ⟨number, hfiles, hperm, hnodes, hedges⟩ := h
  have hmap := hnodes.map (describe g'.files)
  rw [List.map_map] at hmap
  have hsame : g.nodes.map (describe g'.files ∘
      fun n => { n with fileId := n.fileId.map number }) = g.nodes.map (describe g.files) := by
    apply List.map_congr_left
    intro n hn
    have hfile : ((n.fileId.map number).bind fun id => g'.files[id]?) =
        n.fileId.bind fun id => g.files[id]? := by
      match hid : n.fileId with
      | none => rfl
      | some id => exact hfiles id (hg.inRange n hn id hid)
    rw [Function.comp_apply, describe, describe, hfile]
  rw [hsame] at hmap
  exact hmap

end Described

/-! ### Files -/

section Files

variable (files : List String)

theorem fileOrder_total (a b : Nat × String) : (fileOrder a b || fileOrder b a) = true := by
  rw [Bool.or_eq_true, fileOrder, fileOrder, decide_eq_true_eq, decide_eq_true_eq]
  rcases lt_trichotomy a.2 b.2 with h | h | h
  · exact .inl (.inl h)
  · rcases Nat.le_total a.1 b.1 with hle | hle
    · exact .inl (.inr ⟨h, hle⟩)
    · exact .inr (.inr ⟨h.symm, hle⟩)
  · exact .inr (.inl h)

theorem fileOrder_trans (a b c : Nat × String) (hab : fileOrder a b = true)
    (hbc : fileOrder b c = true) : fileOrder a c = true := by
  rw [fileOrder, decide_eq_true_eq] at hab hbc ⊢
  rcases hab with hab | ⟨hab, hle⟩
  · rcases hbc with hbc | ⟨hbc, _⟩
    · exact .inl (hab.trans hbc)
    · exact .inl (hbc ▸ hab)
  · rcases hbc with hbc | ⟨hbc, hle'⟩
    · exact .inl (hab ▸ hbc)
    · exact .inr ⟨hab.trans hbc, hle.trans hle'⟩

theorem indexedFiles_perm :
    (indexedFiles files).Perm (files.zipIdx.map fun e => (asU32 e.2, e.1)) :=
  List.mergeSort_perm _ _

theorem normalizedFiles_perm : (normalizedFiles files).Perm files := by
  have hmap := (indexedFiles_perm files).map Prod.snd
  rw [List.map_map] at hmap
  have hfst : files.zipIdx.map (Prod.snd ∘ fun e => (asU32 e.2, e.1)) = files := by
    rw [show (Prod.snd ∘ fun e : String × Nat => (asU32 e.2, e.1)) = Prod.fst from rfl,
      List.zipIdx_map_fst]
  rw [hfst] at hmap
  exact hmap

theorem normalizedFiles_sorted : (normalizedFiles files).Pairwise (· ≤ ·) := by
  have hsorted := List.pairwise_mergeSort fileOrder_trans fileOrder_total
    (files.zipIdx.map fun e => (asU32 e.2, e.1))
  apply List.pairwise_map.mpr
  apply hsorted.imp
  intro a b hab
  rw [fileOrder, decide_eq_true_eq] at hab
  rcases hab with hab | ⟨hab, _⟩
  · exact hab.le
  · exact hab.le

/-- The order depends on the names only. -/
theorem normalizedFiles_eq_of_perm {files files' : List String} (h : files'.Perm files) :
    normalizedFiles files' = normalizedFiles files := by
  apply List.Perm.eq_of_pairwise (fun a b _ _ => le_antisymm) (normalizedFiles_sorted files')
    (normalizedFiles_sorted files)
  exact (normalizedFiles_perm files').trans (h.trans (normalizedFiles_perm files).symm)

variable {files}

theorem normalizedFiles_nodup (hnames : files.Nodup) : (normalizedFiles files).Nodup :=
  (normalizedFiles_perm files).nodup_iff.mpr hnames

theorem mem_indexedFiles {k : Nat} {path : String} (h : (k, path) ∈ indexedFiles files) :
    ∃ i, files[i]? = some path ∧ asU32 i = k := by
  obtain ⟨⟨name, i⟩, hmem, heq⟩ := List.mem_map.mp ((indexedFiles_perm files).mem_iff.mp h)
  cases heq
  exact ⟨i, List.mem_zipIdx_iff_getElem?.mp hmem, rfl⟩

/-- A name in the sorted files, with the number it had. -/
theorem getElem?_indexedFiles {r : Nat} {path : String}
    (h : (normalizedFiles files)[r]? = some path) :
    ∃ i, (indexedFiles files)[r]? = some (asU32 i, path) ∧ files[i]? = some path := by
  rw [normalizedFiles, List.getElem?_map] at h
  obtain ⟨⟨k, name⟩, hget, rfl⟩ := Option.map_eq_some_iff.mp h
  obtain ⟨i, hi, rfl⟩ := mem_indexedFiles (List.mem_of_getElem? hget)
  exact ⟨i, hget, hi⟩

/-- Of the names with one number the last in the new order decides where it leads. -/
theorem fileIdMap_of_last (hnames : files.Nodup) {i r : Nat} {path : String}
    (hi : files[i]? = some path) (hr : (normalizedFiles files)[r]? = some path)
    (hlast : ∀ j r' name, files[j]? = some name → (normalizedFiles files)[r']? = some name →
      asU32 j = asU32 i → r' ≤ r) :
    fileIdMap files (asU32 i) = some (asU32 r) := by
  obtain ⟨i', hget, hi'⟩ := getElem?_indexedFiles hr
  obtain ⟨hlt, _⟩ := List.getElem?_eq_some_iff.mp hi
  obtain rfl := (List.getElem?_inj hlt hnames).mp (hi.trans hi'.symm)
  apply FMap.insertAll_of_last (r := r)
  · rw [List.getElem?_map, List.getElem?_zipIdx, hget]
    simp
  · intro r' e he hkey
    rw [List.getElem?_map, List.getElem?_zipIdx, Option.map_map] at he
    obtain ⟨⟨k, name⟩, hindexed, rfl⟩ := Option.map_eq_some_iff.mp he
    obtain ⟨j, hj, hk⟩ := mem_indexedFiles (List.mem_of_getElem? hindexed)
    apply hlast j r' name hj
    · rw [normalizedFiles, List.getElem?_map, hindexed]
      rfl
    · exact hk.trans hkey

theorem fileIdMap_lt {k j : Nat} (h : fileIdMap files k = some j) : j < 2 ^ 32 := by
  rcases FMap.insertAll_cases h with hempty | hmem
  · cases hempty
  · obtain ⟨e, _, he⟩ := List.mem_map.mp hmem
    cases he
    exact asU32_lt _

/-- A number leads to the same name as before, while no number is cut. -/
theorem fileIdMap_spec (hnames : files.Nodup) (hfit : files.length ≤ 2 ^ 32) {i : Nat}
    (hi : i < files.length) :
    ∃ j, fileIdMap files i = some j ∧ (normalizedFiles files)[j]? = files[i]? := by
  have hget := List.getElem?_eq_getElem hi
  have hmem := (normalizedFiles_perm files).mem_iff.mpr (List.mem_of_getElem? hget)
  obtain ⟨r, hr⟩ := List.mem_iff_getElem?.mp hmem
  have hrlt : r < files.length := by
    have := (List.getElem?_eq_some_iff.mp hr).1
    rwa [(normalizedFiles_perm files).length_eq] at this
  have hmap := fileIdMap_of_last hnames hget hr (by
    intro j r' name hj hr' hsame
    obtain ⟨hjlt, _⟩ := List.getElem?_eq_some_iff.mp hj
    rw [asU32_of_lt (by omega), asU32_of_lt (by omega)] at hsame
    subst hsame
    obtain ⟨hlt', _⟩ := List.getElem?_eq_some_iff.mp hr'
    have hname := hr'.trans (hj.symm.trans (hget.trans hr.symm))
    exact ((List.getElem?_inj hlt' (normalizedFiles_nodup hnames)).mp hname).le)
  rw [asU32_of_lt (by omega), asU32_of_lt (by omega)] at hmap
  exact ⟨r, hmap, hr.trans hget.symm⟩

end Files

/-! ### Nodes and edges -/

theorem nodeOrder_total (a b : CodeGraphNode) : (nodeOrder a b || nodeOrder b a) = true := by
  rw [Bool.or_eq_true, nodeOrder, nodeOrder, decide_eq_true_eq, decide_eq_true_eq]
  exact Nat.le_total a.id b.id

theorem nodeOrder_trans (a b c : CodeGraphNode) (hab : nodeOrder a b = true)
    (hbc : nodeOrder b c = true) : nodeOrder a c = true := by
  rw [nodeOrder, decide_eq_true_eq] at hab hbc ⊢
  exact hab.trans hbc

theorem edgeOrder_total (a b : CodeGraphEdge) : (edgeOrder a b || edgeOrder b a) = true := by
  rw [Bool.or_eq_true, edgeOrder, edgeOrder, decide_eq_true_eq, decide_eq_true_eq]
  rcases le_total a.kind b.kind with h | h
  · grind
  · grind

theorem edgeOrder_trans (a b c : CodeGraphEdge) (hab : edgeOrder a b = true)
    (hbc : edgeOrder b c = true) : edgeOrder a c = true := by
  rw [edgeOrder, decide_eq_true_eq] at hab hbc ⊢
  have hkind : a.kind ≤ b.kind → b.kind ≤ c.kind → a.kind ≤ c.kind := le_trans
  grind

theorem edgeOrder_antisymm (a b : CodeGraphEdge) (hab : edgeOrder a b = true)
    (hba : edgeOrder b a = true) : a = b := by
  rw [edgeOrder, decide_eq_true_eq] at hab hba
  have hkind : a.kind ≤ b.kind → b.kind ≤ a.kind → a.kind = b.kind := le_antisymm
  have hfields : a.src = b.src ∧ a.dst = b.dst ∧ a.kind = b.kind := by grind
  cases a
  cases b
  simp only at hfields
  rw [hfields.1, hfields.2.1, hfields.2.2]

/-- Nodes with different identifiers are sorted in one way. -/
theorem mergeSort_nodes_eq {nodes nodes' : List CodeGraphNode} (h : nodes'.Perm nodes)
    (hids : (nodes.map (·.id)).Nodup) :
    nodes'.mergeSort nodeOrder = nodes.mergeSort nodeOrder := by
  have hperm : (nodes'.mergeSort nodeOrder).Perm nodes := (List.mergeSort_perm _ _).trans h
  have hpairwise := fun ns => List.pairwise_mergeSort nodeOrder_trans nodeOrder_total ns
  apply List.Perm.eq_of_pairwise _ (hpairwise nodes') (hpairwise nodes)
    (hperm.trans (List.mergeSort_perm _ _).symm)
  intro a b ha hb hab hba
  rw [nodeOrder, decide_eq_true_eq] at hab hba
  exact List.inj_on_of_nodup_map hids (hperm.mem_iff.mp ha)
    ((List.mergeSort_perm _ _).mem_iff.mp hb) (Nat.le_antisymm hab hba)

theorem mergeSort_edges_eq {edges edges' : List CodeGraphEdge} (h : edges'.Perm edges) :
    edges'.mergeSort edgeOrder = edges.mergeSort edgeOrder := by
  have hpairwise := fun es => List.pairwise_mergeSort edgeOrder_trans edgeOrder_total es
  apply List.Perm.eq_of_pairwise (fun a b _ _ => edgeOrder_antisymm a b) (hpairwise edges')
    (hpairwise edges)
  exact (List.mergeSort_perm _ _).trans (h.trans (List.mergeSort_perm _ _).symm)

/-! ### The normal form -/

variable {g g' : CodeGraphProjection}

/-- A node whose number is the place of its path. -/
theorem node_describe_eq (hg : WellNumbered g) {n : CodeGraphNode} (hn : n ∈ g.nodes)
    (files : List String) :
    (describe g.files n).node files =
      { n with fileId := n.fileId.map fun i => files.idxOf (g.files[i]?.getD "") } := by
  have hfile : ((n.fileId.bind fun id => g.files[id]?).map fun path => files.idxOf path) =
      n.fileId.map fun i => files.idxOf (g.files[i]?.getD "") := by
    match hid : n.fileId with
    | none => rfl
    | some id =>
      have hlt := hg.inRange n hn id hid
      rw [Option.bind_some, Option.map_some, List.getElem?_eq_getElem hlt, Option.map_some,
        Option.getD_some]
  rw [describe, NodeDescription.node, hfile]

/-- The renumbered nodes are read off their descriptions. -/
theorem renumberFile_eq (hg : WellNumbered g) (hfit : FileNumbersFit g) {n : CodeGraphNode}
    (hn : n ∈ g.nodes) :
    renumberFile (fileIdMap g.files) n = (describe g.files n).node (normalizedFiles g.files) := by
  rw [node_describe_eq hg hn, renumberFile]
  match hid : n.fileId with
  | none =>
    cases n
    cases hid
    rfl
  | some oldId =>
    have hlt := hg.inRange n hn oldId hid
    rcases hfit with hfit | hnone
    · obtain ⟨newId, hnew, hname⟩ := fileIdMap_spec hg.names hfit hlt
      rw [List.getElem?_eq_getElem hlt] at hname
      obtain ⟨hnewlt, hget⟩ := List.getElem?_eq_some_iff.mp hname
      have hidx : (normalizedFiles g.files).idxOf (g.files[oldId]?.getD "") = newId := by
        rw [List.getElem?_eq_getElem hlt, Option.getD_some, ← hget,
          List.Nodup.idxOf_getElem (normalizedFiles_nodup hg.names)]
      simp only [hnew, Option.map_some, hidx]
    · rw [hnone n hn] at hid
      cases hid

theorem map_renumberFile_eq (hg : WellNumbered g) (hfit : FileNumbersFit g) :
    g.nodes.map (renumberFile (fileIdMap g.files)) =
      (g.nodes.map (describe g.files)).map (NodeDescription.node (normalizedFiles g.files)) := by
  rw [List.map_map]
  exact List.map_congr_left fun n hn => renumberFile_eq hg hfit hn

/-- Normalising renumbers the files and changes the order. -/
theorem renumbered_normalizeGraph (hg : WellNumbered g) (hfit : FileNumbersFit g) :
    Renumbered g (normalizeGraph g) := by
  refine ⟨fun i => (normalizedFiles g.files).idxOf (g.files[i]?.getD ""), ?_,
    normalizedFiles_perm g.files, ?_, List.mergeSort_perm _ _⟩
  · intro i hi
    show (normalizedFiles g.files)[(normalizedFiles g.files).idxOf (g.files[i]?.getD "")]? = _
    have hmem := (normalizedFiles_perm g.files).mem_iff.mpr (List.getElem_mem hi)
    rw [List.getElem?_eq_getElem hi, Option.getD_some, List.getElem?_idxOf hmem]
  · have hsame : g.nodes.map (renumberFile (fileIdMap g.files)) = g.nodes.map fun n =>
        { n with
          fileId := n.fileId.map fun i => (normalizedFiles g.files).idxOf (g.files[i]?.getD "") } :=
      List.map_congr_left fun n hn =>
        (renumberFile_eq hg hfit hn).trans (node_describe_eq hg hn _)
    rw [← hsame]
    exact List.mergeSort_perm _ _

/-- A graph that differs in numbering and order has the same normal form. -/
theorem normalizeGraph_eq_of_renumbered (h : Renumbered g g') (hg : WellNumbered g)
    (hg' : WellNumbered g') (hfit : FileNumbersFit g) : normalizeGraph g' = normalizeGraph g := by
  have hfit' := h.fit hfit
  have hdescriptions := h.descriptions hg
  obtain ⟨_, _, hfiles, _, hedges⟩ := h
  have hnames := normalizedFiles_eq_of_perm hfiles
  have hnodes : (g'.nodes.map (renumberFile (fileIdMap g'.files))).Perm
      (g.nodes.map (renumberFile (fileIdMap g.files))) := by
    rw [map_renumberFile_eq hg' hfit', map_renumberFile_eq hg hfit, hnames]
    exact hdescriptions.map _
  have hids : ((g.nodes.map (renumberFile (fileIdMap g.files))).map (·.id)).Nodup := by
    rw [map_renumberFile_eq hg hfit, List.map_map, List.map_map]
    exact hg.ids
  rw [normalizeGraph, normalizeGraph, hnames, mergeSort_nodes_eq hnodes hids,
    mergeSort_edges_eq hedges]

theorem normalizeGraph_narrow (hg : WellNumbered g) :
    ∀ n ∈ (normalizeGraph g).nodes, ∀ id, n.fileId = some id → id < 2 ^ 32 := by
  intro n' hn' id hid
  obtain ⟨n, hn, rfl⟩ := List.mem_map.mp ((List.mergeSort_perm _ _).mem_iff.mp hn')
  rw [renumberFile] at hid
  split at hid
  · exact hg.narrow n hn id hid
  · split at hid
    · exact hg.narrow n hn id hid
    · rename_i newId hnew
      obtain rfl : newId = id := Option.some.inj hid
      exact fileIdMap_lt hnew

theorem canonical_of_fit (hg : WellNumbered g) (hfit : FileNumbersFit g) : Canonical g := by
  have hself := renumbered_normalizeGraph hg hfit
  have hwell := hself.wellNumbered hg (normalizeGraph_narrow hg)
  exact ⟨hself.descriptions hg, List.mergeSort_perm _ _,
    normalizeGraph_eq_of_renumbered hself hg hwell hfit,
    fun g' h hg' => normalizeGraph_eq_of_renumbered h hg hg' hfit⟩

/-! ### More files than numbers -/

/-- The node a file number comes from is told by its identifier, so its path is kept. -/
theorem path_of_kept (hg : WellNumbered g)
    (hkept : ((normalizeGraph g).nodes.map (describe (normalizeGraph g).files)).Perm
      (g.nodes.map (describe g.files)))
    {n : CodeGraphNode} (hn : n ∈ g.nodes) {k : Nat} (hk : n.fileId = some k) :
    (normalizedFiles g.files)[(fileIdMap g.files k).getD k]? = g.files[k]? := by
  have hmem : renumberFile (fileIdMap g.files) n ∈ (normalizeGraph g).nodes :=
    (List.mergeSort_perm _ _).mem_iff.mpr (List.mem_map_of_mem hn)
  obtain ⟨m, hm, hsame⟩ := List.mem_map.mp (hkept.mem_iff.mp (List.mem_map_of_mem hmem))
  have hnew : (renumberFile (fileIdMap g.files) n).id = n.id ∧
      (renumberFile (fileIdMap g.files) n).fileId = some ((fileIdMap g.files k).getD k) := by
    rw [renumberFile, hk]
    match hmap : fileIdMap g.files k with
    | none => simp [hk, hmap]
    | some j => simp [hmap]
  have hid : m.id = n.id := (congrArg NodeDescription.id hsame).trans hnew.1
  obtain rfl := List.inj_on_of_nodup_map hg.ids hm hn hid
  have hfile := congrArg NodeDescription.file hsame
  simp only [describe, hnew.2, hk, Option.bind_some] at hfile
  exact hfile.symm

/-- The same graph with the file at place `i` moved to `σ i`. -/
def CodeGraphProjection.arrange (g : CodeGraphProjection) (σ : Equiv.Perm Nat) :
    CodeGraphProjection where
  nodes := g.nodes.map fun n => { n with fileId := n.fileId.map σ }
  edges := g.edges
  files := (List.range g.files.length).map fun i => g.files[σ.symm i]?.getD ""

section Arranged

variable {σ : Equiv.Perm Nat} (hσ : ∀ i, σ i < g.files.length ↔ i < g.files.length)
include hσ

theorem arrange_files {i : Nat} (hi : i < g.files.length) :
    (g.arrange σ).files[σ i]? = g.files[i]? := by
  show ((List.range g.files.length).map fun i => g.files[σ.symm i]?.getD "")[σ i]? = _
  rw [List.getElem?_map, List.getElem?_range ((hσ i).mpr hi), Option.map_some,
    Equiv.symm_apply_apply, List.getElem?_eq_getElem hi, Option.getD_some]

theorem arrange_perm : (g.arrange σ).files.Perm g.files := by
  have hplaces : ((List.range g.files.length).map σ.symm).Perm (List.range g.files.length) := by
    apply (List.perm_ext_iff_of_nodup (List.nodup_range.map σ.symm.injective)
      List.nodup_range).mpr
    intro i
    rw [List.mem_map, List.mem_range]
    constructor
    · intro ⟨j, hj, hji⟩
      rw [List.mem_range] at hj
      rw [← hσ i, ← hji, Equiv.apply_symm_apply]
      exact hj
    · intro hi
      exact ⟨σ i, List.mem_range.mpr ((hσ i).mpr hi), Equiv.symm_apply_apply σ i⟩
  have hall : ((List.range g.files.length).map fun i => g.files[i]?.getD "") = g.files := by
    apply List.ext_getElem?
    intro i
    rw [List.getElem?_map]
    by_cases hi : i < g.files.length
    · rw [List.getElem?_range hi, Option.map_some, List.getElem?_eq_getElem hi, Option.getD_some]
    · rw [List.getElem?_eq_none (by simpa using hi), List.getElem?_eq_none (by simpa using hi)]
      rfl
  have hmap := hplaces.map fun i => g.files[i]?.getD ""
  rw [List.map_map, hall] at hmap
  exact hmap

theorem renumbered_arrange : Renumbered g (g.arrange σ) :=
  ⟨σ, fun _ hi => arrange_files hσ hi, arrange_perm hσ, List.Perm.refl _, List.Perm.refl _⟩

/-- In every arrangement that keeps the used numbers narrow, the last file with number 0
    decides which path the node with number 0 gets. -/
theorem Canonical.path_at_zero (h : Canonical g) (hg : WellNumbered g)
    (hused : ∀ n ∈ g.nodes, ∀ k, n.fileId = some k → σ k < 2 ^ 32)
    {n : CodeGraphNode} (hn : n ∈ g.nodes) {k : Nat} (hk : n.fileId = some k) (hzero : σ k = 0)
    {c r : Nat} (hc : c < g.files.length) (hr : (normalizedFiles g.files)[r]? = g.files[c]?)
    (hsame : asU32 (σ c) = 0)
    (hlast : ∀ j r', j < g.files.length → (normalizedFiles g.files)[r']? = g.files[j]? →
      asU32 (σ j) = 0 → r' ≤ r) :
    (normalizedFiles g.files)[asU32 r]? = g.files[k]? := by
  have hrenumbered := renumbered_arrange hσ
  have hfiles := normalizedFiles_eq_of_perm (arrange_perm hσ)
  have hwell : WellNumbered (g.arrange σ) := by
    apply hrenumbered.wellNumbered hg
    intro n' hn' id hid
    obtain ⟨m, hm, rfl⟩ := List.mem_map.mp hn'
    obtain ⟨old, hold, rfl⟩ := Option.map_eq_some_iff.mp hid
    exact hused m hm old hold
  have hkept := h.nodes.trans (hrenumbered.descriptions hg).symm
  rw [← h.unique _ hrenumbered hwell] at hkept
  have hpath := path_of_kept hwell hkept (List.mem_map_of_mem hn) (k := 0)
    (by rw [← hzero, hk]; rfl)
  have hmap := fileIdMap_of_last hwell.names (i := σ c) (r := r)
    (by rw [arrange_files hσ hc, List.getElem?_eq_getElem hc])
    (by rw [hfiles, hr, List.getElem?_eq_getElem hc]) (by
      intro j r' name hj hr' hcut
      obtain ⟨j, rfl⟩ := σ.surjective j
      have hjlt : j < g.files.length := by
        rw [← hσ j, ← (arrange_perm hσ).length_eq]
        exact (List.getElem?_eq_some_iff.mp hj).1
      rw [arrange_files hσ hjlt] at hj
      rw [hfiles] at hr'
      exact hlast j r' hjlt (hr'.trans hj.symm) (hcut.trans hsame))
  rw [hsame] at hmap
  rw [hmap, Option.getD_some, hfiles, ← hzero, arrange_files hσ (hg.inRange n hn k hk)] at hpath
  exact hpath

end Arranged

theorem swap_lt_iff {bound a b : Nat} (ha : a < bound) (hb : b < bound) (i : Nat) :
    Equiv.swap a b i < bound ↔ i < bound := by
  rw [Equiv.swap_apply_def]
  split_ifs with hia hib
  · simp [hia, ha, hb]
  · simp [hib, ha, hb]
  · rfl

/-- Two places moved to 0 and to `far`, where what stands below `far` stays below. -/
theorem exists_arrangement {a c far bound : Nat} (hfar : far < bound) (ha : a < far)
    (hc : c < bound) (hac : a ≠ c) :
    ∃ σ : Equiv.Perm Nat, (∀ i, σ i < bound ↔ i < bound) ∧ σ a = 0 ∧ σ c = far ∧
      ∀ k < far, k ≠ c → σ k < far := by
  have hc' : Equiv.swap 0 a c < bound := (swap_lt_iff (by omega) (by omega) c).mpr hc
  have hzero : Equiv.swap 0 a a = 0 := Equiv.swap_apply_right 0 a
  have hne : Equiv.swap 0 a c ≠ 0 := fun h =>
    hac ((Equiv.swap 0 a).injective (hzero.trans h.symm))
  refine ⟨(Equiv.swap 0 a).trans (Equiv.swap (Equiv.swap 0 a c) far), ?_, ?_, ?_, ?_⟩
  · intro i
    rw [Equiv.trans_apply, swap_lt_iff hc' hfar, swap_lt_iff (by omega) (by omega)]
  · rw [Equiv.trans_apply, hzero, Equiv.swap_apply_of_ne_of_ne hne.symm (by omega)]
  · rw [Equiv.trans_apply, Equiv.swap_apply_left]
  · intro k hk hkc
    have hlt : Equiv.swap 0 a k < far := (swap_lt_iff (by omega) ha k).mpr hk
    rw [Equiv.trans_apply, Equiv.swap_apply_of_ne_of_ne _ hlt.ne]
    · exact hlt
    · exact fun h => hkc ((Equiv.swap 0 a).injective h)

/-- A third place moved to 1 as well. -/
theorem exists_arrangement_three {a b c far bound : Nat} (hfar : far < bound) (ha : a < far)
    (hb : b < bound) (hc : c < bound) (hac : a ≠ c) (hab : a ≠ b) (hbc : b ≠ c) (hone : 1 < far) :
    ∃ σ : Equiv.Perm Nat, (∀ i, σ i < bound ↔ i < bound) ∧ σ a = 0 ∧ σ b = 1 ∧ σ c = far := by
  obtain ⟨σ, hσ, hσa, hσc, _⟩ := exists_arrangement hfar ha hc hac
  have hσb := (hσ b).mpr hb
  have hne : ∀ i, i ≠ b → σ i ≠ 1 → Equiv.swap (σ b) 1 (σ i) = σ i := fun i hi hi1 =>
    Equiv.swap_apply_of_ne_of_ne (fun h => hi (σ.injective h)) hi1
  refine ⟨σ.trans (Equiv.swap (σ b) 1), ?_, ?_, ?_, ?_⟩
  · intro i
    rw [Equiv.trans_apply, swap_lt_iff hσb (by omega), hσ]
  · rw [Equiv.trans_apply, hne a hab (by omega), hσa]
  · rw [Equiv.trans_apply, Equiv.swap_apply_left]
  · rw [Equiv.trans_apply, hne c hbc.symm (by omega), hσc]

theorem exists_file_at {r : Nat} (hr : r < g.files.length) :
    ∃ c < g.files.length, (normalizedFiles g.files)[r]? = g.files[c]? := by
  have hlen := (normalizedFiles_perm g.files).length_eq
  have hget := List.getElem?_eq_getElem (show r < (normalizedFiles g.files).length by omega)
  obtain ⟨c, hc⟩ := List.mem_iff_getElem?.mp
    ((normalizedFiles_perm g.files).mem_iff.mp (List.mem_of_getElem? hget))
  exact ⟨c, (List.getElem?_eq_some_iff.mp hc).1, hget.trans hc.symm⟩

theorem place_lt {r c : Nat} (hc : c < g.files.length)
    (hr : (normalizedFiles g.files)[r]? = g.files[c]?) : r < g.files.length := by
  rw [List.getElem?_eq_getElem hc] at hr
  rw [← (normalizedFiles_perm g.files).length_eq]
  exact (List.getElem?_eq_some_iff.mp hr).1

section Places

variable (hg : WellNumbered g)
include hg

theorem place_unique {r r' c : Nat} (hc : c < g.files.length)
    (hr : (normalizedFiles g.files)[r]? = g.files[c]?)
    (hr' : (normalizedFiles g.files)[r']? = g.files[c]?) : r = r' := by
  have hlt := place_lt hc hr
  rw [← (normalizedFiles_perm g.files).length_eq] at hlt
  exact (List.getElem?_inj hlt (normalizedFiles_nodup hg.names)).mp (hr.trans hr'.symm)

/-- The place of a used file is a value of the map, so it is narrow. -/
theorem Canonical.place_narrow (h : Canonical g) {n : CodeGraphNode} (hn : n ∈ g.nodes) {k r : Nat}
    (hk : n.fileId = some k) (hr : (normalizedFiles g.files)[r]? = g.files[k]?) : r < 2 ^ 32 := by
  rw [place_unique hg (hg.inRange n hn k hk) hr (path_of_kept hg h.nodes hn hk)]
  match hmap : fileIdMap g.files k with
  | none => exact hg.narrow n hn k hk
  | some j => exact fileIdMap_lt hmap

/-- The largest name can be put behind any used file, whose place is then the cut one. -/
theorem Canonical.path_eq_cut (h : Canonical g) (hmany : 2 ^ 32 < g.files.length) {l : Nat}
    (hl : l < g.files.length)
    (hlast : (normalizedFiles g.files)[g.files.length - 1]? = g.files[l]?)
    (hunused : ∀ m ∈ g.nodes, ∀ k, m.fileId = some k → k ≠ l) {n : CodeGraphNode}
    (hn : n ∈ g.nodes) {k : Nat} (hk : n.fileId = some k) :
    (normalizedFiles g.files)[asU32 (g.files.length - 1)]? = g.files[k]? := by
  obtain ⟨σ, hσ, hzero, hfar, hbelow⟩ := exists_arrangement hmany (hg.narrow n hn k hk) hl
    (hunused n hn k hk)
  apply h.path_at_zero hσ hg _ hn hk hzero hl hlast (by rw [hfar]; rfl)
  · intro j r' hj hr' _
    have := place_lt hj hr'
    omega
  · intro m hm k' hk'
    exact hbelow k' (hg.narrow m hm k' hk') (hunused m hm k' hk')

/-- With a file too many all used files have the cut place of the largest name, so there is only
    one of them.  The second largest name in its stead shows another place. -/
theorem Canonical.fit (h : Canonical g) : FileNumbersFit g := by
  by_contra hfit
  rw [FileNumbersFit, not_or, not_forall] at hfit
  obtain ⟨hmany, n, hex⟩ := hfit
  rw [Nat.not_le] at hmany
  rw [Classical.not_imp] at hex
  obtain ⟨hn, hsome⟩ := hex
  obtain ⟨p, hp⟩ := Option.ne_none_iff_exists'.mp hsome
  have hplt := hg.inRange n hn p hp
  obtain ⟨l, hl, hlast⟩ := exists_file_at (g := g) (r := g.files.length - 1) (by omega)
  obtain ⟨l', hl', hlast'⟩ := exists_file_at (g := g) (r := g.files.length - 2) (by omega)
  have hunused : ∀ m ∈ g.nodes, ∀ k, m.fileId = some k → k ≠ l := by
    intro m hm k hk hkl
    have := h.place_narrow hg hm hk (hkl ▸ hlast)
    omega
  have hcut := h.path_eq_cut hg hmany hl hlast hunused hn hp
  have hpl' : p ≠ l' := by
    intro hpl
    have := place_unique hg hplt hcut (hpl ▸ hlast')
    rw [asU32] at this
    omega
  have hll' : l ≠ l' := by
    intro hll
    have := place_unique hg hl hlast (hll ▸ hlast')
    omega
  obtain ⟨σ, hσ, hzero, hone, hfar⟩ := exists_arrangement_three hmany (hg.narrow n hn p hp) hl hl'
    hpl' (hunused n hn p hp) hll' (by decide)
  have hsecond := h.path_at_zero hσ hg (k := p) (r := g.files.length - 2)
    (by
      intro m hm k hk
      have hpath := (h.path_eq_cut hg hmany hl hlast hunused hm hk).symm.trans hcut
      rw [(List.getElem?_inj (hg.inRange m hm k hk) hg.names).mp hpath, hzero]
      decide)
    hn hp hzero hl' hlast' (by rw [hfar]; rfl)
    (by
      intro j r' hj hr' hsame
      by_cases hjl : j = l
      · rw [hjl, hone] at hsame
        exact absurd hsame (by decide)
      · have hne : r' ≠ g.files.length - 1 := by
          intro heq
          rw [heq, hlast] at hr'
          exact hjl ((List.getElem?_inj hl hg.names).mp hr').symm
        have := place_lt hj hr'
        omega)
  have := place_unique hg hplt hcut hsecond
  rw [asU32, asU32] at this
  omega

end Places

/-- Normalising is canonical exactly when there are no more files than numbers, or no node has
    a file. -/
theorem normalize_canonical_iff (g : CodeGraphProjection) (hg : WellNumbered g) :
    Canonical g ↔ FileNumbersFit g :=
  ⟨fun h => h.fit hg, canonical_of_fit hg⟩

/-- Two files in the wrong order. -/
def unsortedGraph : CodeGraphProjection where
  nodes := [⟨1, "FUNCTION", "b::f", some 0, some 3⟩, ⟨0, "MODULE", "a", some 1, none⟩]
  edges := [⟨1, 0, "CALL"⟩, ⟨0, 1, "CONTAINS"⟩]
  files := ["b.rs", "a.rs"]

theorem normalize_canonical_sample :
    WellNumbered unsortedGraph ∧ FileNumbersFit unsortedGraph ∧ Canonical unsortedGraph := by
  have hg : WellNumbered unsortedGraph := by
    refine ⟨by decide, by decide, ?_, ?_⟩
    all_goals
      intro n hn id hid
      rw [unsortedGraph, List.mem_cons, List.mem_singleton] at hn
      rcases hn with rfl | rfl
      · cases hid
        decide
      · cases hid
        decide
  have hfit : FileNumbersFit unsortedGraph := .inl (by decide)
  exact ⟨hg, hfit, (normalize_canonical_iff unsortedGraph hg).mpr hfit⟩

/-- A file before `count` others with smaller names, and a node in it. -/
def crowdedGraph (count : Nat) : CodeGraphProjection where
  nodes := [⟨0, "FUNCTION", "f", some 0, none⟩]
  edges := []
  files := "b" :: (List.range count).map fun i => String.ofList (List.replicate i 'a')

theorem crowdedGraph_wellNumbered (count : Nat) : WellNumbered (crowdedGraph count) := by
  refine ⟨by simp [crowdedGraph], ?_, ?_, ?_⟩
  · apply List.nodup_cons.mpr
    constructor
    · intro hmem
      obtain ⟨i, _, hi⟩ := List.mem_map.mp hmem
      have hchars := congrArg String.toList hi
      rw [String.toList_ofList] at hchars
      have hb : 'b' ∈ List.replicate i 'a' := by
        rw [hchars]
        decide
      exact absurd (List.eq_of_mem_replicate hb) (by decide)
    · apply List.nodup_range.map
      intro i j hij
      have hchars := congrArg (fun s => s.toList.length) hij
      simpa using hchars
  · intro n hn id hid
    obtain rfl := List.mem_singleton.mp hn
    obtain rfl := Option.some.inj hid
    exact Nat.succ_pos _
  · intro n hn id hid
    obtain rfl := List.mem_singleton.mp hn
    obtain rfl := Option.some.inj hid
    decide

/-- The number of the largest name is cut to 0, the number of the smallest. -/
theorem file_number_cut :
    WellNumbered (crowdedGraph (2 ^ 32)) ∧ ¬ Canonical (crowdedGraph (2 ^ 32)) := by
  refine ⟨crowdedGraph_wellNumbered _, fun h => ?_⟩
  rcases h.fit (crowdedGraph_wellNumbered _) with hfit | hnone
  · rw [crowdedGraph, List.length_cons, List.length_map, List.length_range] at hfit
    omega
  · cases hnone _ (List.mem_singleton.mpr rfl)

end Canon.Graph
