import Canon.Ir.Arena

/-! # The sealed representation and its validation

    The rest of `CanonIR`: the kinds of nodes, the eight graphs in rows of edges, and
    `validate_structural` of the compiler's `invariants`.  Of a node's fields only those
    are kept that the validation or the event log reads.
-/

namespace Canon.Ir

/-! ### Nodes -/

/-- What ends or branches a basic block; the other operations have no successors. -/
inductive CfgOp where
  | branch (trueBb falseBb : Nat)
  | switch (targets : List Nat) (otherwise : Option Nat)
  | goto (bb : Nat)
  | other
deriving DecidableEq, Repr

/-- The kinds of nodes besides types. -/
inductive ItemKind where
  | crate (nameId : NameId)
  | module (pathId : PathId)
  | struct (nameId : NameId)
  | enum (nameId : NameId)
  | trait (nameId : NameId)
  | assocType (nameId : NameId)
  | assocConst (nameId : NameId)
  | impl
  | fn (nameId : NameId) (body : Option CanonId)
  | fnSig
  | field (nameId : Option NameId)
  | param (nameId : NameId)
  | genericParam (nameId : NameId)
  | wherePred
  | variant (nameId : NameId)
  | attr (pathId : PathId)
  | lifetime (nameId : NameId)
  | const (nameId : NameId)
  | static (nameId : NameId)
  | use (pathId : PathId)
  | externCrate (nameId : NameId)
  | typeAlias (nameId : NameId)
  | typeRef (nameId : NameId)
  | macroCall (pathId : PathId)
  | pathRef (pathId : PathId)
  | body (blocks : List CanonId)
  | basicBlock (ops : List CfgOp) (next : Option Nat)
  | matchArm
  | pattern
  | visPath (pathId : PathId)
  | localVar (nameId : NameId)
deriving DecidableEq, Repr

abbrev Node := CanonNode ItemKind

/-! ### Graphs -/

inductive CanonEdgeKind where
  | renames | resolves | implRef | typeOf | typeUnifies | implTrait | dynTrait
  | calls | contains | implFor | cfgEdge
  | cfgBranch (label : Text)
  | outlives | constDep | expands | assocItem | instantiates | reexports
deriving DecidableEq, Repr

/-- `CsrGraph<CanonId, EdgeKind>`: row `i` has the edges from `rowPtr[i]` to
    `rowPtr[i + 1]`, all from the node `nodeData[i]`. -/
structure CsrGraph where
  nodeData : List CanonId
  rowPtr : List Nat
  colIdx : List Nat
  edgeData : List CanonEdgeKind

/-- The adjacency over all graphs, which only the validation reads. -/
structure CanonCsr where
  rowPtr : List Nat
  colIdx : List Nat
  kind : List Nat

structure SealedIR extends CanonIR ItemKind where
  emitOrder : List CanonId
  nameGraph : CsrGraph
  typeGraph : CsrGraph
  callGraph : CsrGraph
  moduleGraph : CsrGraph
  cfgGraph : CsrGraph
  regionGraph : CsrGraph
  valueGraph : CsrGraph
  macroGraph : CsrGraph
  graphCsr : CanonCsr
  graphCsrRev : CanonCsr

variable (ir : SealedIR)

/-- In the order of the validation. -/
def SealedIR.graphs : List (String × CsrGraph) :=
  [("name_graph", ir.nameGraph), ("type_graph", ir.typeGraph), ("call_graph", ir.callGraph),
    ("module_graph", ir.moduleGraph), ("cfg_graph", ir.cfgGraph), ("region_graph", ir.regionGraph),
    ("value_graph", ir.valueGraph), ("macro_graph", ir.macroGraph)]

/-! ### Validation -/

inductive Failure where
  | error (message : String)
  | panicked
deriving DecidableEq, Repr

/-- The name of a node; a name or path that is not in its table is a panic. -/
def nodeBaseLabel (ir : CanonIR ItemKind) : CanonNodeKind ItemKind → Option Text
  | .other (.crate nameId) => ir.lookupName nameId
  | .other (.module pathId) => ir.lookupPath pathId
  | .other (.struct nameId) => ir.lookupName nameId
  | .other (.enum nameId) => ir.lookupName nameId
  | .other (.trait nameId) => ir.lookupName nameId
  | .other (.assocType nameId) => ir.lookupName nameId
  | .other (.assocConst nameId) => ir.lookupName nameId
  | .other .impl => some "impl".toList
  | .other (.fn nameId _) => ir.lookupName nameId
  | .other .fnSig => some "fn_sig".toList
  | .type _ => some "type".toList
  | .other (.field nameId) =>
    match nameId with
    | some id => ir.lookupName id
    | none => some "field".toList
  | .other (.param nameId) => ir.lookupName nameId
  | .other (.genericParam nameId) => ir.lookupName nameId
  | .other .wherePred => some "where_pred".toList
  | .other (.variant nameId) => ir.lookupName nameId
  | .other (.attr pathId) => ir.lookupPath pathId
  | .other (.lifetime nameId) => ir.lookupName nameId
  | .other (.const nameId) => ir.lookupName nameId
  | .other (.static nameId) => ir.lookupName nameId
  | .other (.use pathId) => ir.lookupPath pathId
  | .other (.externCrate nameId) => ir.lookupName nameId
  | .other (.typeAlias nameId) => ir.lookupName nameId
  | .other (.typeRef nameId) => ir.lookupName nameId
  | .other (.macroCall pathId) => ir.lookupPath pathId
  | .other (.pathRef pathId) => ir.lookupPath pathId
  | .other (.body _) => some "body".toList
  | .other (.basicBlock _ _) => some "bb".toList
  | .other .matchArm => some "match_arm".toList
  | .other .pattern => some "pattern".toList
  | .other (.visPath pathId) => ir.lookupPath pathId
  | .other (.localVar nameId) => ir.lookupName nameId

/-- `canonical_label`: here every name gets the number of its node. -/
def canonicalLabel (base : Text) (fallbackId : CanonId) : Text :=
  if base = [] then "node".toList ++ '#' :: Text.ofNat fallbackId.toNat
  else base ++ '#' :: Text.ofNat fallbackId.toNat

def check (holds : Bool) (message : String) : Except Failure Unit :=
  if holds then .ok () else .error (.error message)

def validateNodes (ir : CanonIR ItemKind) (seen : List CanonId) (labels : List Text) :
    List Node → Except Failure Unit
  | [] => .ok ()
  | node :: nodes =>
    let id := node.id
    if id ∈ seen then
      .error (.error s!"Invariant violation: duplicate CanonId detected id={id}")
    else
      match nodeBaseLabel ir node.kind with
      | none => .error .panicked
      | some base =>
        let label := canonicalLabel base id
        if label ≠ [] ∧ label ∈ labels then
          .error (.error s!"Invariant violation: duplicate node symbol detected id={id}")
        else validateNodes ir (id :: seen) (label :: labels) nodes

def validateUniqueIds : Except Failure Unit :=
  validateNodes ir.toCanonIR [] [] ir.nodes

def validateEndpoints (label : String) (colIdx : List Nat) (nodeCount : Nat) :
    Except Failure Unit :=
  check (colIdx.all (· < nodeCount))
    s!"Invariant violation: {label} edge endpoint out of bounds node_count={nodeCount}"

def validateEdgeEndpoints : Except Failure Unit := do
  ir.graphs.forM fun e => validateEndpoints e.1 e.2.colIdx ir.nodes.length
  validateEndpoints "graph_csr" ir.graphCsr.colIdx ir.nodes.length
  validateEndpoints "graph_csr_rev" ir.graphCsrRev.colIdx ir.nodes.length

/-- `validate_csr` of `ir.rs`, with the prefix its caller puts before the message. -/
def validateGlobalCsr (label : String) (csr : CanonCsr) (nodeCount : Nat) :
    Except Failure Unit := do
  let rows := csr.rowPtr.length
  let want := nodeCount + 1
  let cols := csr.colIdx.length
  let kinds := csr.kind.length
  let last := (csr.rowPtr[nodeCount]?).getD 0
  -- The number of edges is compared as a `u32`.
  let edgeCount := cols % 2 ^ 32
  check (rows == want)
    s!"Invariant violation: {label}: row_ptr length {rows}, expected {want}"
  check (csr.rowPtr.head?.getD 1 == 0) s!"Invariant violation: {label}: row_ptr must start at 0"
  check ((csr.rowPtr.zip csr.rowPtr.tail).all fun w => w.1 ≤ w.2)
    s!"Invariant violation: {label}: row_ptr must be monotonic"
  check (cols == kinds)
    s!"Invariant violation: {label}: col_idx length {cols} != kind length {kinds}"
  check (last == edgeCount)
    s!"Invariant violation: {label}: row_ptr[N] {last} != edge_count {edgeCount}"
  check (csr.colIdx.all (· < nodeCount))
    s!"Invariant violation: {label}: col_idx contains out-of-range node id"

def validateGraph (label : String) (graph : CsrGraph) (nodeCount : Nat) : Except Failure Unit := do
  let rows := graph.rowPtr.length
  let nodes := graph.nodeData.length
  let cols := graph.colIdx.length
  let edges := graph.edgeData.length
  check (rows == nodes + 1)
    s!"Invariant violation: {label} row_ptr length mismatch row_ptr={rows} node_data={nodes}"
  check (nodes == nodeCount)
    s!"Invariant violation: {label} node_data length mismatch node_data={nodes} node_count={nodeCount}"
  check (cols == edges)
    s!"Invariant violation: {label} edge payload length mismatch col_idx={cols} edge_data={edges}"

def validateCsr : Except Failure Unit := do
  validateGlobalCsr "graph_csr" ir.graphCsr ir.nodes.length
  validateGlobalCsr "graph_csr_rev" ir.graphCsrRev ir.nodes.length
  ir.graphs.forM fun e => validateGraph e.1 e.2 ir.nodes.length

def validateOrder (nodeCount : Nat) : Option CanonId → List CanonId → Except Failure Unit
  | _, [] => .ok ()
  | last, id :: ids => do
    check (decide (id.toNat < nodeCount))
      s!"Invariant violation: emit_order contains out-of-range node id={id}"
    let prev := last.getD id
    check (decide (prev ≤ id))
      s!"Invariant violation: emit_order not sorted prev={prev} curr={id}"
    validateOrder nodeCount (some id) ids

def validateEmitOrder : Except Failure Unit := do
  ir.nodes.zipIdx.forM fun e =>
    let idx := e.2
    let nodeId := e.1.id
    check (nodeId == UInt32.ofNat idx)
      s!"Invariant violation: canon node order mismatch idx={idx} node_id={nodeId}"
  validateOrder ir.nodes.length none ir.emitOrder

def validateStructural : Except Failure Unit := do
  validateUniqueIds ir
  validateEdgeEndpoints ir
  validateCsr ir
  validateEmitOrder ir

end Canon.Ir
