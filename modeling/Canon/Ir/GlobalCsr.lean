import Canon.Lib.SortedRows
import Canon.Ir.Sealed

/-! # The adjacency over all graphs

    `rebuild_global_csr_from_edges` and its readers of `ir.rs`: `build_csr` sorts the
    edges by one end and cuts them into rows with one position that only moves forward,
    once for the edges out of a node and once for those into it.
-/

namespace Canon.Ir

open CountingSort (below slice)

/-! ### Building -/

abbrev CanonEdge := UInt32 × UInt32 × CanonEdgeKind

def edgeKindCode : CanonEdgeKind → Nat
  | .renames => 0
  | .resolves => 1
  | .implRef => 2
  | .typeOf => 3
  | .typeUnifies => 4
  | .implTrait => 5
  | .dynTrait => 6
  | .calls => 7
  | .contains => 8
  | .implFor => 9
  | .cfgEdge => 10
  | .cfgBranch _ => 11
  | .outlives => 12
  | .constDep => 13
  | .expands => 14
  | .assocItem => 15
  | .instantiates => 16
  | .reexports => 17

/-- The end of an edge whose row it is in. -/
def row (reverse : Bool) (e : CanonEdge) : Nat := if reverse then e.2.1.toNat else e.1.toNat

/-- The other end. -/
def col (reverse : Bool) (e : CanonEdge) : Nat := if reverse then e.1.toNat else e.2.1.toNat

/-- The payload that is built, and how many of the sorted edges are in it. -/
structure CsrFill where
  csr : CanonCsr
  edgePos : Nat

/-- The inner loop, on the edges that are left: it stops at another row. -/
def fillRow (reverse : Bool) (node : Nat) : List CanonEdge → CsrFill → CsrFill
  | [], f => f
  | e :: rest, f =>
    if row reverse e ≠ node then f
    else fillRow reverse node rest
      ⟨{ f.csr with colIdx := f.csr.colIdx ++ [col reverse e]
                    kind := f.csr.kind ++ [edgeKindCode e.2.2] }, f.edgePos + 1⟩

/-- One round of the outer loop; the end of the row is stored as a `u32`. -/
def fillNode (reverse : Bool) (sorted : List CanonEdge) (f : CsrFill) (node : Nat) : CsrFill :=
  let filled := fillRow reverse node (sorted.drop f.edgePos) f
  ⟨{ filled.csr with rowPtr := filled.csr.rowPtr.set (node + 1) (filled.edgePos % 2 ^ 32) },
    filled.edgePos⟩

def buildCsr (nodeCount : Nat) (edges : List CanonEdge) (reverse : Bool) : CanonCsr :=
  let sorted := edges.mergeSort fun a b => decide (row reverse a ≤ row reverse b)
  ((List.range nodeCount).foldl (fillNode reverse sorted)
    ⟨⟨List.replicate (nodeCount + 1) 0, [], []⟩, 0⟩).csr

def CsrGraph.empty : CsrGraph := ⟨[], [0], [], []⟩

/-- `CanonIR::new`. -/
def SealedIR.new : SealedIR where
  toCanonIR := .new
  emitOrder := []
  nameGraph := .empty
  typeGraph := .empty
  callGraph := .empty
  moduleGraph := .empty
  cfgGraph := .empty
  regionGraph := .empty
  valueGraph := .empty
  macroGraph := .empty
  graphCsr := ⟨[], [], []⟩
  graphCsrRev := ⟨[], [], []⟩

def SealedIR.rebuildGlobalCsrFromEdges (ir : SealedIR) (edges : List CanonEdge) : SealedIR :=
  { ir with
    graphCsr := buildCsr ir.nodes.length edges false
    graphCsrRev := buildCsr ir.nodes.length edges true }

/-! ### Reading -/

/-- A part of a list; one that begins behind its end or ends behind the list panics. -/
def slice? {α : Type} (cells : List α) (a b : Nat) : Option (List α) :=
  if a ≤ b ∧ b ≤ cells.length then some (slice cells a b) else none

/-- Nothing where the code panics. -/
def csrEdgeSlices (csr : CanonCsr) (nodeCount : Nat) (node : CanonId) :
    Option (List Nat × List Nat) := do
  let idx := node.toNat
  guard (idx < nodeCount)
  let start ← csr.rowPtr[idx]?
  let stop ← csr.rowPtr[idx + 1]?
  let cols ← slice? csr.colIdx start stop
  let kinds ← slice? csr.kind start stop
  pure (cols, kinds)

namespace SealedIR

def outEdgeSlices (ir : SealedIR) (node : CanonId) : Option (List Nat × List Nat) :=
  csrEdgeSlices ir.graphCsr ir.nodes.length node

def inEdgeSlices (ir : SealedIR) (node : CanonId) : Option (List Nat × List Nat) :=
  csrEdgeSlices ir.graphCsrRev ir.nodes.length node

end SealedIR

/-! ### Validation -/

def checkThat (holds : Bool) (message : String) : Except String Unit :=
  if holds then .ok () else .error message

/-- `validate_csr` of `ir.rs`. -/
def CanonCsr.validate (label : String) (csr : CanonCsr) (nodeCount : Nat) :
    Except String Unit := do
  let rows := csr.rowPtr.length
  let want := nodeCount + 1
  let cols := csr.colIdx.length
  let kinds := csr.kind.length
  let last := (csr.rowPtr[nodeCount]?).getD 0
  let edgeCount := cols % 2 ^ 32
  checkThat (rows == want) s!"{label}: row_ptr length {rows}, expected {want}"
  checkThat (csr.rowPtr.head?.getD 1 == 0) s!"{label}: row_ptr must start at 0"
  checkThat ((csr.rowPtr.zip csr.rowPtr.tail).all fun w => w.1 ≤ w.2)
    s!"{label}: row_ptr must be monotonic"
  checkThat (cols == kinds) s!"{label}: col_idx length {cols} != kind length {kinds}"
  checkThat (last == edgeCount) s!"{label}: row_ptr[N] {last} != edge_count {edgeCount}"
  checkThat (csr.colIdx.all (· < nodeCount)) s!"{label}: col_idx contains out-of-range node id"

def SealedIR.validateGlobalCsr (ir : SealedIR) : Except String Unit := do
  ir.graphCsr.validate "graph_csr" ir.nodes.length
  ir.graphCsrRev.validate "graph_csr_rev" ir.nodes.length

/-- The compiler's check is this one, with its own prefix before the message. -/
theorem validateGlobalCsr_eq (label : String) (csr : CanonCsr) (nodeCount : Nat) :
    Canon.Ir.validateGlobalCsr label csr nodeCount =
      (csr.validate label nodeCount).mapError fun m => .error ("Invariant violation: " ++ m) := by
  have hcheck : ∀ (holds : Bool) (message prefixed : String) (next : Except Failure Unit)
      (rest : Except String Unit), prefixed = "Invariant violation: " ++ message →
      (next = rest.mapError fun m => .error ("Invariant violation: " ++ m)) →
      (check holds prefixed >>= fun _ => next) =
        (checkThat holds message >>= fun _ => rest).mapError
          fun m => .error ("Invariant violation: " ++ m) := by
    intro holds message prefixed next rest hmessage hnext
    cases holds with
    | false => rw [hmessage]; rfl
    | true => exact hnext
  have hlast : ∀ (holds : Bool) (message prefixed : String),
      prefixed = "Invariant violation: " ++ message →
      check holds prefixed = (checkThat holds message).mapError
        fun m => .error ("Invariant violation: " ++ m) := by
    intro holds message prefixed hmessage
    cases holds with
    | false => rw [hmessage]; rfl
    | true => rfl
  have htext : toString "Invariant violation: " = "Invariant violation: " := rfl
  unfold Canon.Ir.validateGlobalCsr CanonCsr.validate
  repeat refine hcheck _ _ _ _ _ (by simp [htext, String.append_assoc]) ?_
  exact hlast _ _ _ (by simp [htext, String.append_assoc])

/-! ### What the walk builds -/

section Build

variable {reverse : Bool}

theorem fillRow_eq (node : Nat) (rest : List CanonEdge) (f : CsrFill) :
    fillRow reverse node rest f =
      let taken := rest.takeWhile fun e => decide (row reverse e = node)
      ⟨⟨f.csr.rowPtr, f.csr.colIdx ++ taken.map (col reverse),
        f.csr.kind ++ taken.map fun e => edgeKindCode e.2.2⟩, f.edgePos + taken.length⟩ := by
  induction rest generalizing f with
  | nil => simp [fillRow]
  | cons e rest ih =>
    rw [fillRow]
    by_cases h : row reverse e = node
    · rw [if_neg (not_not.mpr h), ih, List.takeWhile_cons_of_pos (by simpa using h)]
      simp only [List.map_cons, List.length_cons, List.append_assoc, List.singleton_append,
        CsrFill.mk.injEq, true_and]
      omega
    · rw [if_pos h, List.takeWhile_cons_of_neg (by simpa using h)]
      simp

/-- What holds when the rows below `node` are filled. -/
structure Filled (reverse : Bool) (nodeCount : Nat) (sorted : List CanonEdge) (node : Nat)
    (f : CsrFill) : Prop where
  pos : f.edgePos = below (row reverse) sorted node
  length : f.csr.rowPtr.length = nodeCount + 1
  rowPtr : ∀ i ≤ node, f.csr.rowPtr[i]? = some (below (row reverse) sorted i)
  colIdx : f.csr.colIdx = (sorted.take f.edgePos).map (col reverse)
  kind : f.csr.kind = (sorted.take f.edgePos).map fun e => edgeKindCode e.2.2

variable {nodeCount : Nat} {sorted : List CanonEdge} {node : Nat} {f : CsrFill}

theorem Filled.fillNode (h : Filled reverse nodeCount sorted node f)
    (hsorted : sorted.Pairwise fun a b => row reverse a ≤ row reverse b)
    (hfits : sorted.length < 2 ^ 32) (hnode : node < nodeCount) :
    Filled reverse nodeCount sorted (node + 1) (fillNode reverse sorted f node) := by
  have htaken := CountingSort.takeWhile_drop_below hsorted node
  have hnext := CountingSort.below_succ (row reverse) sorted node
  have hbound := CountingSort.below_le_length (row reverse) sorted (node + 1)
  have hsize := CountingSort.total_eq_length (row reverse) sorted node
  have htake : sorted.take (below (row reverse) sorted (node + 1)) =
      sorted.take (below (row reverse) sorted node) ++
        sorted.filter fun e => decide (row reverse e = node) := by
    rw [hnext, List.take_add, CountingSort.drop_below_eq_append hsorted, List.take_left' hsize.symm]
  have hstep : Canon.Ir.fillNode reverse sorted f node =
      ⟨⟨f.csr.rowPtr.set (node + 1) (below (row reverse) sorted (node + 1) % 2 ^ 32),
        f.csr.colIdx ++ (sorted.filter fun e => decide (row reverse e = node)).map (col reverse),
        f.csr.kind ++ (sorted.filter fun e => decide (row reverse e = node)).map
          fun e => edgeKindCode e.2.2⟩, below (row reverse) sorted (node + 1)⟩ := by
    rw [Canon.Ir.fillNode, fillRow_eq, h.pos, htaken, hnext, hsize]
  rw [hstep]
  have hsmall : below (row reverse) sorted (node + 1) % 2 ^ 32 =
      below (row reverse) sorted (node + 1) := Nat.mod_eq_of_lt (by omega)
  refine ⟨rfl, ?_, ?_, ?_, ?_⟩
  · show (f.csr.rowPtr.set _ _).length = _
    rw [List.length_set, h.length]
  · intro i hi
    show (f.csr.rowPtr.set _ _)[i]? = _
    by_cases hlast : i = node + 1
    · rw [hlast, List.getElem?_set_self (by rw [h.length]; omega), hsmall]
    · rw [List.getElem?_set_ne (by omega)]
      exact h.rowPtr i (by omega)
  · show f.csr.colIdx ++ _ = _
    rw [h.colIdx, h.pos, htake, List.map_append]
  · show f.csr.kind ++ _ = _
    rw [h.kind, h.pos, htake, List.map_append]

theorem filled_foldl (hsorted : sorted.Pairwise fun a b => row reverse a ≤ row reverse b)
    (hfits : sorted.length < 2 ^ 32) (hnode : node ≤ nodeCount) :
    Filled reverse nodeCount sorted node ((List.range node).foldl (fillNode reverse sorted)
      ⟨⟨List.replicate (nodeCount + 1) 0, [], []⟩, 0⟩) := by
  induction node with
  | zero =>
    refine ⟨by simp, by simp, ?_, rfl, rfl⟩
    intro i hi
    rw [Nat.le_zero.mp hi, CountingSort.below_zero]
    simp
  | succ node ih =>
    rw [List.range_succ, List.foldl_append]
    exact (ih (by omega)).fillNode hsorted hfits hnode

variable {edges : List CanonEdge}

theorem pairwise_row (reverse : Bool) (edges : List CanonEdge) :
    (edges.mergeSort fun a b => decide (row reverse a ≤ row reverse b)).Pairwise
      fun a b => row reverse a ≤ row reverse b := by
  have hsorted := @List.pairwise_mergeSort _
    (fun a b : CanonEdge => decide (row reverse a ≤ row reverse b))
    (fun a b c => by
      simp only [decide_eq_true_eq]
      omega)
    (fun a b => by
      simp only [Bool.or_eq_true, decide_eq_true_eq]
      omega) edges
  exact hsorted.imp fun hle => of_decide_eq_true hle

theorem filled_buildCsr (hfits : edges.length < 2 ^ 32) :
    Filled reverse nodeCount (edges.mergeSort fun a b => decide (row reverse a ≤ row reverse b))
      nodeCount
      ⟨buildCsr nodeCount edges reverse,
        below (row reverse) (edges.mergeSort fun a b => decide (row reverse a ≤ row reverse b))
          nodeCount⟩ := by
  have hall := @filled_foldl reverse nodeCount _ nodeCount
    (pairwise_row reverse edges) (by rw [List.length_mergeSort]; exact hfits)
    (Nat.le_refl _)
  have hpos := hall.pos
  rw [← hpos]
  exact hall

theorem below_mergeSort (key : CanonEdge → Nat) (le : CanonEdge → CanonEdge → Bool) (k : Nat) :
    below key (edges.mergeSort le) k = below key edges k :=
  (List.mergeSort_perm edges le).countP_eq _

theorem below_eq_length (hrow : ∀ e ∈ edges, row reverse e < nodeCount) :
    below (row reverse) edges nodeCount = edges.length := by
  apply List.countP_eq_length.mpr
  intro e he
  exact decide_eq_true (hrow e he)

/-- Every edge is in a row, and the rows begin where the earlier edges end. -/
theorem buildCsr_eq (hfits : edges.length < 2 ^ 32)
    (hrow : ∀ e ∈ edges, row reverse e < nodeCount) :
    (buildCsr nodeCount edges reverse).rowPtr.length = nodeCount + 1 ∧
    (∀ i ≤ nodeCount, (buildCsr nodeCount edges reverse).rowPtr[i]? =
      some (below (row reverse) edges i)) ∧
    (buildCsr nodeCount edges reverse).colIdx =
      (edges.mergeSort fun a b => decide (row reverse a ≤ row reverse b)).map (col reverse) ∧
    (buildCsr nodeCount edges reverse).kind =
      (edges.mergeSort fun a b => decide (row reverse a ≤ row reverse b)).map
        fun e => edgeKindCode e.2.2 := by
  have h := @filled_buildCsr reverse nodeCount edges hfits
  have hlength : below (row reverse)
      (edges.mergeSort fun a b => decide (row reverse a ≤ row reverse b)) nodeCount =
        (edges.mergeSort fun a b => decide (row reverse a ≤ row reverse b)).length := by
    rw [below_mergeSort, below_eq_length hrow, List.length_mergeSort]
  refine ⟨h.length, ?_, ?_, ?_⟩
  · intro i hi
    rw [h.rowPtr i hi, below_mergeSort]
  · have hcols := h.colIdx
    rw [hlength, List.take_length] at hcols
    exact hcols
  · have hkinds := h.kind
    rw [hlength, List.take_length] at hkinds
    exact hkinds

/-- The edges of a row, in the order of the input. -/
def rowEdges (reverse : Bool) (edges : List CanonEdge) (v : CanonId) : List CanonEdge :=
  edges.filter fun e => decide (row reverse e = v.toNat)

theorem slice?_map {α : Type} (g : CanonEdge → α) {v : CanonId} :
    slice? ((edges.mergeSort fun a b => decide (row reverse a ≤ row reverse b)).map g)
      (below (row reverse) edges v.toNat) (below (row reverse) edges (v.toNat + 1)) =
        some ((rowEdges reverse edges v).map g) := by
  have hrow := CountingSort.slice_sorted (pairwise_row reverse edges) v.toNat
  rw [below_mergeSort, below_mergeSort, CountingSort.filter_mergeSort] at hrow
  have hmono := CountingSort.below_mono (row reverse) edges (Nat.le_succ v.toNat)
  have hbound := CountingSort.below_le_length (row reverse) edges (v.toNat + 1)
  rw [slice?, if_pos ⟨hmono, by rw [List.length_map, List.length_mergeSort]; exact hbound⟩]
  rw [slice, ← List.map_take, ← List.map_drop]
  rw [slice] at hrow
  rw [hrow, rowEdges]

theorem csrEdgeSlices_buildCsr (hfits : edges.length < 2 ^ 32)
    (hrow : ∀ e ∈ edges, row reverse e < nodeCount) {v : CanonId} (hv : v.toNat < nodeCount) :
    csrEdgeSlices (buildCsr nodeCount edges reverse) nodeCount v =
      some ((rowEdges reverse edges v).map (col reverse),
        (rowEdges reverse edges v).map fun e => edgeKindCode e.2.2) := by
  obtain ⟨-, hptr, hcols, hkinds⟩ := buildCsr_eq hfits hrow
  have hstart := hptr v.toNat (by omega)
  have hstop := hptr (v.toNat + 1) (by omega)
  simp only [csrEdgeSlices, hv, hstart, hstop, hcols, hkinds, guard, if_true]
  simp only [Option.pure_def, Option.bind_eq_bind, Option.bind_some, slice?_map]

theorem validate_buildCsr (label : String) (hfits : edges.length < 2 ^ 32)
    (hrow : ∀ e ∈ edges, row reverse e < nodeCount)
    (hcol : ∀ e ∈ edges, col reverse e < nodeCount) :
    (buildCsr nodeCount edges reverse).validate label nodeCount = .ok () := by
  obtain ⟨hlength, hptr, hcols, hkinds⟩ := buildCsr_eq hfits hrow
  have hzero : (buildCsr nodeCount edges reverse).rowPtr.head?.getD 1 = 0 := by
    rw [List.head?_eq_getElem?, hptr 0 (by omega), CountingSort.below_zero]
    rfl
  have hlast : ((buildCsr nodeCount edges reverse).rowPtr[nodeCount]?).getD 0 =
      edges.length % 2 ^ 32 := by
    rw [hptr nodeCount (Nat.le_refl _), below_eq_length hrow, Nat.mod_eq_of_lt hfits]
    rfl
  have hmono : ((buildCsr nodeCount edges reverse).rowPtr.zip
      (buildCsr nodeCount edges reverse).rowPtr.tail).all (fun w => w.1 ≤ w.2) = true := by
    rw [List.all_eq_true]
    intro w hw
    obtain ⟨i, hi⟩ := List.getElem?_of_mem hw
    rw [List.getElem?_zip_eq_some, List.getElem?_tail] at hi
    have hlt : i + 1 < nodeCount + 1 := by
      rw [← hlength]
      exact (List.getElem?_eq_some_iff.mp hi.2).1
    rw [hptr i (by omega), hptr (i + 1) (by omega)] at hi
    have hle := CountingSort.below_mono (row reverse) edges (Nat.le_succ i)
    rw [← Option.some.inj hi.1, ← Option.some.inj hi.2]
    exact decide_eq_true hle
  have hends : (buildCsr nodeCount edges reverse).colIdx.all (· < nodeCount) = true := by
    rw [List.all_eq_true, hcols]
    intro c hc
    obtain ⟨e, he, rfl⟩ := List.mem_map.mp hc
    exact decide_eq_true (hcol e (List.mem_mergeSort.mp he))
  have hlengths : (buildCsr nodeCount edges reverse).colIdx.length = edges.length := by
    rw [hcols, List.length_map, List.length_mergeSort]
  have hkindsLength : (buildCsr nodeCount edges reverse).kind.length = edges.length := by
    rw [hkinds, List.length_map, List.length_mergeSort]
  simp only [CanonCsr.validate, hlength, hzero, hlast, hmono, hends, hlengths, hkindsLength,
    checkThat, beq_self_eq_true, if_true]
  rfl

end Build

/-! ### What the readers return -/

theorem row_lt {nodeCount : Nat} {edges : List CanonEdge} {reverse : Bool}
    (hends : ∀ e ∈ edges, e.1.toNat < nodeCount ∧ e.2.1.toNat < nodeCount) :
    (∀ e ∈ edges, row reverse e < nodeCount) ∧ ∀ e ∈ edges, col reverse e < nodeCount := by
  cases reverse with
  | false => exact ⟨fun e he => (hends e he).1, fun e he => (hends e he).2⟩
  | true => exact ⟨fun e he => (hends e he).2, fun e he => (hends e he).1⟩

/-- A pair occurs in a row as often as there are edges with these ends and this kind. -/
theorem count_rowEdges (reverse : Bool) (edges : List CanonEdge) (v u : CanonId) (kind : Nat) :
    (((rowEdges reverse edges v).map (col reverse)).zip
      ((rowEdges reverse edges v).map fun e => edgeKindCode e.2.2)).count (u.toNat, kind) =
    edges.countP fun e => decide (col reverse e = u.toNat ∧ row reverse e = v.toNat ∧
      edgeKindCode e.2.2 = kind) := by
  rw [List.zip_map', List.count_eq_countP, List.countP_map, rowEdges, List.countP_filter]
  apply List.countP_congr
  intro e _
  simp only [Function.comp_apply, beq_iff_eq, Prod.mk.injEq, Bool.and_eq_true, decide_eq_true_eq]
  tauto

/-- After a rebuild the validation passes, the slices of a node are its edges in the order
    of the input, and the two directions have the same edges. -/
theorem global_csr_faithful (ir : SealedIR) (edges : List CanonEdge)
    (hends : ∀ e ∈ edges, e.1.toNat < ir.nodes.length ∧ e.2.1.toNat < ir.nodes.length)
    (hfits : edges.length < 2 ^ 32) :
    (ir.rebuildGlobalCsrFromEdges edges).validateGlobalCsr = .ok () ∧
    (∀ v : CanonId, v.toNat < ir.nodes.length →
      (ir.rebuildGlobalCsrFromEdges edges).outEdgeSlices v =
        some ((edges.filter fun e => decide (e.1 = v)).map fun e => e.2.1.toNat,
          (edges.filter fun e => decide (e.1 = v)).map fun e => edgeKindCode e.2.2) ∧
      (ir.rebuildGlobalCsrFromEdges edges).inEdgeSlices v =
        some ((edges.filter fun e => decide (e.2.1 = v)).map fun e => e.1.toNat,
          (edges.filter fun e => decide (e.2.1 = v)).map fun e => edgeKindCode e.2.2)) ∧
    ∀ s d : CanonId, s.toNat < ir.nodes.length → d.toNat < ir.nodes.length →
      ∃ outs ins, (ir.rebuildGlobalCsrFromEdges edges).outEdgeSlices s = some outs ∧
        (ir.rebuildGlobalCsrFromEdges edges).inEdgeSlices d = some ins ∧
        ∀ kind, (outs.1.zip outs.2).count (d.toNat, kind) =
          (ins.1.zip ins.2).count (s.toNat, kind) := by
  have hrange := fun reverse => @row_lt ir.nodes.length edges reverse hends
  have hout : ∀ v : CanonId, v.toNat < ir.nodes.length →
      (ir.rebuildGlobalCsrFromEdges edges).outEdgeSlices v = _ :=
    fun v hv => csrEdgeSlices_buildCsr hfits (hrange false).1 hv
  have hin : ∀ v : CanonId, v.toNat < ir.nodes.length →
      (ir.rebuildGlobalCsrFromEdges edges).inEdgeSlices v = _ :=
    fun v hv => csrEdgeSlices_buildCsr hfits (hrange true).1 hv
  have hrows : ∀ v : CanonId, rowEdges false edges v = edges.filter fun e => decide (e.1 = v) := by
    intro v
    apply List.filter_congr
    intro e _
    rw [decide_eq_decide]
    exact UInt32.toNat_inj
  have hrowsRev : ∀ v : CanonId,
      rowEdges true edges v = edges.filter fun e => decide (e.2.1 = v) := by
    intro v
    apply List.filter_congr
    intro e _
    rw [decide_eq_decide]
    exact UInt32.toNat_inj
  refine ⟨?_, ?_, ?_⟩
  · have hforward := validate_buildCsr "graph_csr" hfits (hrange false).1 (hrange false).2
    have hbackward := validate_buildCsr "graph_csr_rev" hfits (hrange true).1 (hrange true).2
    show (_ >>= fun _ => _) = _
    rw [show (ir.rebuildGlobalCsrFromEdges edges).graphCsr.validate "graph_csr"
      (ir.rebuildGlobalCsrFromEdges edges).nodes.length = .ok () from hforward]
    exact hbackward
  · intro v hv
    rw [hout v hv, hin v hv, hrows, hrowsRev]
    exact ⟨rfl, rfl⟩
  · intro s d hs hd
    refine ⟨_, _, hout s hs, hin d hd, ?_⟩
    intro kind
    rw [count_rowEdges, count_rowEdges]
    apply List.countP_congr
    intro e _
    rw [decide_eq_true_eq, decide_eq_true_eq]
    show (e.2.1.toNat = d.toNat ∧ e.1.toNat = s.toNat ∧ _) ↔
      (e.1.toNat = s.toNat ∧ e.2.1.toNat = d.toNat ∧ _)
    tauto

/-- Parallel edges, an edge to itself and an empty row. -/
theorem global_csr_faithful_parallel :
    let node : CanonNode ItemKind := ⟨0, .other .fnSig⟩
    let edges : List CanonEdge :=
      [(2, 0, .calls), (0, 2, .contains), (2, 2, .typeOf), (0, 2, .calls)]
    let ir := SealedIR.rebuildGlobalCsrFromEdges
      { SealedIR.new with nodes := [node, node, node] } edges
    ir.validateGlobalCsr = .ok () ∧ ir.outEdgeSlices 0 = some ([2, 2], [8, 7]) ∧
      ir.outEdgeSlices 1 = some ([], []) ∧ ir.inEdgeSlices 2 = some ([0, 2, 0], [8, 3, 7]) := by
  intro node edges ir
  have h := global_csr_faithful { SealedIR.new with nodes := [node, node, node] } edges
    (by decide) (by decide)
  exact ⟨h.1, (h.2.1 0 (by decide)).1, (h.2.1 1 (by decide)).1, (h.2.1 2 (by decide)).2⟩

end Canon.Ir
