import Canon.Graph.Projection
import Canon.Ir.Labels
import Canon.Ir.Sealed

/-! # The event log of a representation

    `emit_ir_tlog` of `tlog_writer.rs`: one event for each node, then the edges.  Nodes
    go by their labels; a call edge also makes a call site with a label of its own.
    Hash maps are iterated in some order of their entries.

    The writer numbers its events in a `u64`, which does not run out.
-/

namespace Canon.Ir

open Canon.Graph (RustcEvent)

/-! ### Kinds -/

inductive NodeKind where
  | function | method | struct | enum | trait | impl | field | param | variable | module
  | type | basicBlock | callSite | error
deriving DecidableEq, Repr

def nodeKindStr : NodeKind → String
  | .function => "FUNCTION"
  | .method => "METHOD"
  | .struct => "STRUCT"
  | .enum => "ENUM"
  | .trait => "TRAIT"
  | .impl => "IMPL"
  | .field => "FIELD"
  | .param => "PARAM"
  | .variable => "VARIABLE"
  | .module => "MODULE"
  | .type => "TYPE"
  | .basicBlock => "BASIC_BLOCK"
  | .callSite => "CALL_SITE"
  | .error => "ERROR"

inductive EdgeKind where
  | contains | hasField | hasMethod | hasBlock | hasParam | imports | export | publicUse | flow
  | call | return | unwind | implements | forType | usesType | bounds | assign | propagates
  | argToParam | returns | errorToFunction | errorToBlock
deriving DecidableEq, Repr

def edgeKindStr : EdgeKind → String
  | .contains => "CONTAINS"
  | .hasField => "HAS_FIELD"
  | .hasMethod => "HAS_METHOD"
  | .hasBlock => "HAS_BLOCK"
  | .hasParam => "HAS_PARAM"
  | .imports => "IMPORTS"
  | .export => "EXPORT"
  | .publicUse => "PUBLIC_USE"
  | .flow => "FLOW"
  | .call => "CALL"
  | .return => "RETURN"
  | .unwind => "UNWIND"
  | .implements => "IMPLEMENTS"
  | .forType => "FOR_TYPE"
  | .usesType => "USES_TYPE"
  | .bounds => "BOUNDS"
  | .assign => "ASSIGN"
  | .propagates => "PROPAGATES"
  | .argToParam => "ARG_TO_PARAM"
  | .returns => "RETURNS"
  | .errorToFunction => "ERROR_TO_FUNCTION"
  | .errorToBlock => "ERROR_TO_BLOCK"

def canonNodeKind : CanonNodeKind ItemKind → NodeKind
  | .type _ => .type
  | .other (.crate _) => .module
  | .other (.module _) => .module
  | .other (.struct _) => .struct
  | .other (.enum _) => .enum
  | .other (.trait _) => .trait
  | .other (.assocType _) => .type
  | .other (.assocConst _) => .variable
  | .other .impl => .impl
  | .other (.fn _ _) => .function
  | .other .fnSig => .type
  | .other (.field _) => .field
  | .other (.param _) => .param
  | .other (.genericParam _) => .type
  | .other .wherePred => .type
  | .other (.variant _) => .field
  | .other (.attr _) => .type
  | .other (.lifetime _) => .type
  | .other (.const _) => .variable
  | .other (.static _) => .variable
  | .other (.use _) => .module
  | .other (.externCrate _) => .module
  | .other (.typeAlias _) => .type
  | .other (.typeRef _) => .type
  | .other (.macroCall _) => .module
  | .other (.pathRef _) => .module
  | .other (.body _) => .basicBlock
  | .other (.basicBlock _ _) => .basicBlock
  | .other .matchArm => .basicBlock
  | .other .pattern => .type
  | .other (.visPath _) => .module
  | .other (.localVar _) => .variable

/-- Every kind of edge has an image. -/
def canonEdgeKind : CanonEdgeKind → EdgeKind
  | .contains => .contains
  | .calls => .call
  | .cfgEdge | .cfgBranch _ => .flow
  | .typeOf | .typeUnifies | .implTrait | .dynTrait | .instantiates => .usesType
  | .implRef => .implements
  | .implFor => .forType
  | .renames | .resolves => .imports
  | .reexports => .export
  | .outlives => .bounds
  | .constDep => .propagates
  | .expands => .contains
  | .assocItem => .hasMethod

/-! ### Nodes -/

structure SpanInfo where
  file : Text
  line : Nat

/-- Hash maps as the lists of their entries in the order they are iterated in. -/
structure SymbolSpanBundle where
  spansBySymbol : List (Text × List SpanInfo)
  kinds : List (Text × Text)

def nodeLabel (label : Text) : String := String.ofList label

variable (labels : List Text) (ir : SealedIR)

/-- Empty for a number that is no node. -/
def labelFor (id : CanonId) : String := nodeLabel ((labels[id.toNat]?).getD [])

/-- The path of the kinds that have one; a path that is not in the table has stopped the
    labels before. -/
def nodeSpanPath (ir : CanonIR ItemKind) : CanonNodeKind ItemKind → Option Text
  | .other (.module pathId) => ir.lookupPath pathId
  | .other (.use pathId) => ir.lookupPath pathId
  | .other (.visPath pathId) => ir.lookupPath pathId
  | .other (.macroCall pathId) => ir.lookupPath pathId
  | .other (.pathRef pathId) => ir.lookupPath pathId
  | .other (.attr pathId) => ir.lookupPath pathId
  | _ => none

def looksLikeFile (path : Text) : Bool :=
  ('/' ∈ path ∨ '\\' ∈ path) ∧ Text.endsWith ".rs" path

def nodeFile (ir : CanonIR ItemKind) (kind : CanonNodeKind ItemKind) : Option Text :=
  match kind with
  | .other (.attr _) => none
  | _ => (nodeSpanPath ir kind).filter looksLikeFile

/-- The label in front of its last `#`. -/
def labelBase (label : Text) : Text :=
  match Text.rfind? ['#'] label with
  | some i => label.take i
  | none => label

def nodeSpanKeys (ir : CanonIR ItemKind) (kind : CanonNodeKind ItemKind) (label : Text) :
    List Text :=
  let keys := (nodeSpanPath ir kind).toList
  let base := labelBase label
  if base ≠ [] ∧ base ∉ keys then keys ++ [base] else keys

def orInsertSpans (out : FMap Text (List SpanInfo)) (sym : Text) (spans : List SpanInfo) :
    FMap Text (List SpanInfo) :=
  if (out sym).isSome then out else out.insert sym spans

/-- The part of a symbol behind its last `::`. -/
def shortSymbol (sym : Text) : Text :=
  match Text.rfind? "::" sym with
  | some i => sym.drop (i + 2)
  | none => sym

def buildSpanLookup (bundle : SymbolSpanBundle) : FMap Text (List SpanInfo) :=
  bundle.spansBySymbol.foldl (fun out e =>
    let out := orInsertSpans out e.1 e.2
    let short := shortSymbol e.1
    if short ≠ [] then orInsertSpans out short e.2 else out) FMap.empty

/-- The next span of the first key that has one left, with the cursors after it. -/
def nextSpan (spans : FMap Text (List SpanInfo)) (cursor : FMap Text Nat) :
    List Text → Option SpanInfo × FMap Text Nat
  | [] => (none, cursor)
  | key :: keys =>
    match spans key with
    | none => nextSpan spans cursor keys
    | some list =>
      let idx := (cursor key).getD 0
      match list[idx]? with
      | some span => (some span, cursor.insert key (idx + 1))
      | none => nextSpan spans (cursor.insert key idx) keys

/-- The events of the nodes, and the files that occur in them. -/
def nodeEvents (ir : CanonIR ItemKind) (labels : List Text)
    (spans : Option (FMap Text (List SpanInfo))) :
    FMap Text Nat → List Text → List Node → List RustcEvent × List Text
  | _, files, [] => ([], files)
  | cursor, files, node :: nodes =>
    let label := (labels[node.id.toNat]?).getD []
    let found :=
      match spans with
      | none => (none, cursor)
      | some spans => nextSpan spans cursor (nodeSpanKeys ir node.kind label)
    let own := (nodeFile ir node.kind).getD []
    let file := if own = [] then (found.1.map (·.file)).getD [] else own
    let files := if file ≠ [] ∧ file ∉ files then files ++ [file] else files
    let rest := nodeEvents ir labels spans found.2 files nodes
    (.nodeDefined (labelFor labels node.id) (nodeKindStr (canonNodeKind node.kind)) (nodeLabel file)
      ((found.1.map (·.line)).getD 0) :: rest.1, rest.2)

/-! ### Edges -/

structure CsrEdge where
  srcIdx : Nat
  src : CanonId
  dstIdx : Nat
  kind : CanonEdgeKind

/-- The edges of a row; an index that is out of range is a panic. -/
def CsrGraph.row? (g : CsrGraph) (srcIdx : Nat) (src : CanonId) : Option (List CsrEdge) := do
  let start ← g.rowPtr[srcIdx]?
  let stop ← g.rowPtr[srcIdx + 1]?
  (List.range' start (stop - start)).mapM fun edgeIdx => do
    let dstIdx ← g.colIdx[edgeIdx]?
    let kind ← g.edgeData[edgeIdx]?
    pure ⟨srcIdx, src, dstIdx, kind⟩

def CsrGraph.edges? (g : CsrGraph) : Option (List CsrEdge) :=
  (g.nodeData.zipIdx.mapM fun e => g.row? e.2 e.1).map List.flatten

/-- An edge between nodes, before they are given their labels. -/
abbrev IdEdge := CanonId × CanonId × EdgeKind

def edgeEvent (e : IdEdge) : RustcEvent :=
  .edgeDefined (labelFor labels e.1) (labelFor labels e.2.1) (edgeKindStr e.2.2)

def emitIrEdges (adj : CsrGraph) : Except Failure (List RustcEvent) :=
  match adj.edges? with
  | none => .error .panicked
  | some edges => edges.mapM fun e =>
    match adj.nodeData[e.dstIdx]? with
    | some dst => .ok (edgeEvent labels (e.src, dst, canonEdgeKind e.kind))
    | none =>
      let src := e.srcIdx
      let dst := e.dstIdx
      let count := adj.nodeData.length
      .error (.error (s!"canon invariant violation: edge dst out of range src_idx={src} " ++
        s!"dst_idx={dst} node_count={count}"))

/-- The functions with a body.  Numbers of nodes are distinct, so the hash map has each of
    these entries. -/
def SealedIR.fnBody : List (CanonId × CanonId) :=
  ir.nodes.filterMap fun node =>
    match node.kind with
    | .other (.fn _ (some body)) => some (node.id, body)
    | _ => none

def SealedIR.bodyBlocks : List (CanonId × List CanonId) :=
  ir.nodes.filterMap fun node =>
    match node.kind with
    | .other (.body blocks) => some (node.id, blocks)
    | _ => none

/-- From a function to each block of its body. -/
def blockEdges (fns : List (CanonId × CanonId)) : List IdEdge :=
  fns.flatMap fun f =>
    ((ir.bodyBlocks.lookup f.2).getD []).map fun block => (f.1, block, .hasBlock)

def SealedIR.fnFirstBlock (fnId : CanonId) : Option CanonId :=
  (ir.fnBody.lookup fnId).bind fun body => (ir.bodyBlocks.lookup body).bind List.head?

def callEdges (adj : CsrGraph) (edges : List CsrEdge) : List (CanonId × CanonId) :=
  edges.filterMap fun e =>
    if e.kind = .calls then (adj.nodeData[e.dstIdx]?).map fun dst => (e.src, dst) else none

def callsiteLabel (src : CanonId) (idx : UInt32) : Text :=
  "callsite::".toList ++ (Text.ofNat src.toNat ++ ("::".toList ++ Text.ofNat idx.toNat))

/-- Call sites are counted for each function. -/
def callsiteEvents (ir : SealedIR) (labels : List Text) :
    FMap CanonId UInt32 → List (CanonId × CanonId) → List RustcEvent
  | _, [] => []
  | callsiteIdxByFn, (src, dst) :: calls =>
    let idx := (callsiteIdxByFn src).getD 0
    let label := nodeLabel (callsiteLabel src idx)
    let inBlock := (ir.fnFirstBlock src).toList.map fun block =>
      RustcEvent.edgeDefined (labelFor labels block) label (edgeKindStr .hasBlock)
    .nodeDefined label (nodeKindStr .callSite) "" 0 :: inBlock ++
      .edgeDefined label (labelFor labels dst) (edgeKindStr .call) ::
        callsiteEvents ir labels (callsiteIdxByFn.insert src (idx + 1)) calls

def CfgOp.targets : CfgOp → List Nat
  | .branch trueBb falseBb => [trueBb, falseBb]
  | .switch targets otherwise => targets ++ otherwise.toList
  | .goto bb => [bb]
  | .other => []

/-- From a block to the blocks of the same body that it may go on to. -/
def flowEdges (bodies : List (CanonId × List CanonId)) : List IdEdge :=
  bodies.flatMap fun body => body.2.flatMap fun block =>
    match (ir.nodes[block.toNat]? : Option Node) with
    | some ⟨_, .other (.basicBlock ops next)⟩ =>
      (ops.flatMap CfgOp.targets ++ next.toList).filterMap fun target =>
        (body.2[target]?).map fun dst => (block, dst, .flow)
    | _ => []

/-! ### The log -/

inductive CaptureMode where
  | sparse
  | structural
deriving DecidableEq, Repr

/-- The order in which the entries of the hash maps come. -/
structure HashOrder where
  fnBody : List (CanonId × CanonId) → List (CanonId × CanonId)
  bodyBlocks : List (CanonId × List CanonId) → List (CanonId × List CanonId)
  files : List Text → List Text
  fnBody_perm : ∀ l, (fnBody l).Perm l
  bodyBlocks_perm : ∀ l, (bodyBlocks l).Perm l
  files_perm : ∀ l, (files l).Perm l

def countIrCallEdges (adj : CsrGraph) : Nat := adj.edgeData.countP (· = .calls)

def orPanic {α : Type} : Option α → Except Failure α
  | some a => .ok a
  | none => .error .panicked

/-- The graphs in the order they are written in. -/
def SealedIR.writtenGraphs : List CsrGraph :=
  [ir.nameGraph, ir.typeGraph, ir.moduleGraph, ir.cfgGraph, ir.callGraph, ir.regionGraph,
    ir.valueGraph, ir.macroGraph]

/-- What says nothing about nodes or edges. -/
def closingEvents (bundle : Option SymbolSpanBundle) (files : List Text) :
    List RustcEvent :=
  let symbols := (bundle.map (·.kinds)).getD []
  let spans := ((bundle.map (·.spansBySymbol)).getD []).flatMap (·.2)
  symbols.map (fun _ => .symbolDefined) ++ (spans.map (fun _ => .spanDefined) ++
    (List.replicate (countIrCallEdges ir.callGraph) .callsiteObserved ++
      files.map fun file => .fileSeen (nodeLabel file)))

/-- The events that are written.  A sparse capture goes through the same loops and writes
    none of them. -/
def emitIrTlog (mode : CaptureMode) (ir : SealedIR) (bundle : Option SymbolSpanBundle)
    (order : HashOrder) : Except Failure (List RustcEvent) := do
  validateStructural ir
  let names ← orPanic (ir.nodes.mapM fun node => nodeBaseLabel ir.toCanonIR node.kind)
  let labels := buildUniqueLabels names
  let nodes := nodeEvents ir.toCanonIR labels (bundle.map buildSpanLookup) FMap.empty [] ir.nodes
  let calls ← orPanic ir.callGraph.edges?
  let graphs ← ir.writtenGraphs.mapM (emitIrEdges labels)
  let events := nodes.1 ++
    ((blockEdges ir (order.fnBody ir.fnBody)).map (edgeEvent labels) ++
      (callsiteEvents ir labels FMap.empty (callEdges ir.callGraph calls) ++
        ((flowEdges ir (order.bodyBlocks ir.bodyBlocks)).map (edgeEvent labels) ++
          (graphs.flatten ++ closingEvents ir bundle (order.files nodes.2)))))
  pure (if mode = .structural then events else [])

end Canon.Ir
