import Mathlib.Algebra.GroupWithZero.Nat
import Canon.Lib.Machine
import Canon.Lib.Maps

/-! # The code graph projection

    `apply_rustc_event_to_graph` and `delete_node` of `replay.rs`.  Nodes are
    numbered by their position, edges refer to these numbers, and a symbol index
    kept beside the graph maps symbols to them.  The numbers are positions cut to
    a `u32`, so that from 2 ^ 32 nodes on two of them have the same.

    * `applyRustcEventToGraph`, `graphMachine`: one event, and events in a row,
    * `NodeFits`, `FileFits`: the numbers that an event gives out are not cut.
-/

namespace Canon.Graph

/-! ### Data -/

/-- A number as `u32`, which is also what a sum wraps to. -/
def asU32 (n : Nat) : Nat := n % 2 ^ 32

theorem asU32_of_lt {n : Nat} (h : n < 2 ^ 32) : asU32 n = n := Nat.mod_eq_of_lt h

theorem asU32_le (n : Nat) : asU32 n ≤ n := Nat.mod_le n _

theorem asU32_lt (n : Nat) : asU32 n < 2 ^ 32 := Nat.mod_lt n (by decide)

structure CodeGraphNode where
  id : Nat
  kind : String
  symbol : String
  fileId : Option Nat
  line : Option Nat
deriving DecidableEq, Repr

structure CodeGraphEdge where
  src : Nat
  dst : Nat
  kind : String
deriving DecidableEq, Repr

structure CodeGraphProjection where
  nodes : List CodeGraphNode
  edges : List CodeGraphEdge
  files : List String
deriving DecidableEq, Repr

def CodeGraphProjection.default : CodeGraphProjection := { nodes := [], edges := [], files := [] }

/-- The fields of an event that the projection reads. -/
inductive RustcEvent where
  | sessionStart (project : String)
  | nodeDefined (symbol kind file : String) (line : Nat)
  | nodeUpdated (symbol kind file : String) (line : Nat)
  | nodeRemoved (symbol : String)
  | edgeDefined (src dst kind : String)
  | edgeRemoved (src dst kind : String)
  | fileSeen (path : String)
  | callsiteObserved
  | symbolDefined
  | spanDefined
  | panicCaptured
  | warningCaptured
  | compilationUnitFinished
  | invariantViolation
deriving DecidableEq, Repr

/-- The graph together with its symbol index. -/
structure GraphState where
  graph : CodeGraphProjection
  symbolToId : FMap String Nat

def GraphState.empty : GraphState := { graph := .default, symbolToId := FMap.empty }

/-! ### Nodes -/

/-- The number of a file, which is added when it is new. -/
def internFile (files : List String) (file : String) : Nat × List String :=
  match files.findIdx? (· == file) with
  | some idx => (asU32 idx, files)
  | none => (asU32 files.length, files ++ [file])

/-- A line of zero counts as none. -/
def lineOf (line : Nat) : Option Nat := if line > 0 then some line else none

variable (st : GraphState)

/-- A known symbol: kind, and file and line where the event has them. -/
def updateNode (id : Nat) (node : CodeGraphNode) (kind file : String) (line : Nat) : GraphState :=
  let interned := internFile st.graph.files file
  let node := { node with
    kind := kind
    fileId := if file.isEmpty then node.fileId else some interned.1
    line := if (lineOf line).isSome then lineOf line else node.line }
  { st with graph :=
      { st.graph with
        nodes := st.graph.nodes.set id node
        files := if file.isEmpty then st.graph.files else interned.2 } }

def pushNode (symbol kind file : String) (line : Nat) : GraphState :=
  let interned := internFile st.graph.files file
  let id := asU32 st.graph.nodes.length
  let node : CodeGraphNode :=
    { id := id, kind := kind, symbol := symbol
      fileId := if file.isEmpty then none else some interned.1
      line := lineOf line }
  { graph :=
      { st.graph with
        nodes := st.graph.nodes ++ [node]
        files := if file.isEmpty then st.graph.files else interned.2 }
    symbolToId := if symbol.isEmpty then st.symbolToId else st.symbolToId.insert symbol id }

/-- The node an event about `symbol` updates. -/
def GraphState.findNode (symbol : String) : Option (Nat × CodeGraphNode) :=
  if symbol.isEmpty then none
  else
    (st.symbolToId symbol).bind fun id =>
      (st.graph.nodes[id]?).map fun node => (id, node)

/-- Definitions and updates of nodes are treated alike. -/
def applyNode (symbol kind file : String) (line : Nat) : Bool × GraphState :=
  if kind.isEmpty then (false, st)
  -- Only a module may go without a symbol.
  else if symbol.isEmpty && kind != "MODULE" then (false, st)
  else
    match st.findNode symbol with
    | some (id, node) => (true, updateNode st id node kind file line)
    | none => (true, pushNode st symbol kind file line)

/-! ### Removal -/

/-- The node that takes the place of number `id`. -/
def renumber (id : Nat) : GraphState :=
  match st.graph.nodes[id]? with
  | none => st
  | some node =>
    { graph := { st.graph with nodes := st.graph.nodes.set id { node with id := id } }
      symbolToId :=
        if node.symbol.isEmpty then st.symbolToId else st.symbolToId.insert node.symbol id }

def redirect (old new : Nat) (e : CodeGraphEdge) : CodeGraphEdge :=
  { e with src := if e.src = old then new else e.src, dst := if e.dst = old then new else e.dst }

/-- `swap_remove` of a node: its edges go, the last node gets its number and so do
    the edges of the last node. -/
def deleteNode (id : Nat) : Bool × GraphState :=
  match st.graph.nodes[id]? with
  | none => (false, st)
  | some removed =>
    let lastIdx := st.graph.nodes.length - 1
    let st : GraphState :=
      { graph :=
          { st.graph with
            nodes := swapRemove st.graph.nodes id
            edges := st.graph.edges.filter fun e => e.src ≠ id ∧ e.dst ≠ id }
        symbolToId :=
          if removed.symbol.isEmpty then st.symbolToId else st.symbolToId.erase removed.symbol }
    if id ≠ lastIdx then
      -- The node that moved is renumbered in the index, then in the edges.
      let st := renumber st id
      (true,
        { st with graph :=
            { st.graph with edges := st.graph.edges.map (redirect (asU32 lastIdx) id) } })
    else (true, st)

/-! ### Events -/

/-- Both ends of an edge, when the index knows them. -/
def GraphState.ends (src dst : String) : Option (Nat × Nat) :=
  (st.symbolToId src).bind fun s => (st.symbolToId dst).map fun d => (s, d)

def GraphState.withEdges (edges : List CodeGraphEdge) : GraphState :=
  { st with graph := { st.graph with edges := edges } }

/-- The answer says whether the event counted. -/
def applyRustcEventToGraph (event : RustcEvent) (st : GraphState) (clearOnSession : Bool) :
    Bool × GraphState :=
  match event with
  | .sessionStart _ => (true, if clearOnSession then GraphState.empty else st)
  | .nodeDefined symbol kind file line => applyNode st symbol kind file line
  | .nodeUpdated symbol kind file line => applyNode st symbol kind file line
  | .edgeDefined src dst kind =>
    match st.ends src dst with
    | none => (false, st)
    | some (s, d) => (true, st.withEdges (st.graph.edges ++ [{ src := s, dst := d, kind := kind }]))
  | .nodeRemoved symbol =>
    match st.symbolToId symbol with
    | none => (false, st)
    | some id => deleteNode st id
  | .edgeRemoved src dst kind =>
    match st.ends src dst with
    | none => (false, st)
    | some (s, d) =>
      -- All edges of this kind between the two ends go at once.
      let edges := st.graph.edges.filter fun e => ¬ (e.src = s ∧ e.dst = d ∧ e.kind = kind)
      (st.graph.edges.length != edges.length, st.withEdges edges)
  | .fileSeen path =>
    (true,
      if path.isEmpty || st.graph.files.contains path then st
      else { st with graph := { st.graph with files := st.graph.files ++ [path] } })
  | .callsiteObserved | .symbolDefined | .spanDefined | .panicCaptured | .warningCaptured
  | .compilationUnitFinished | .invariantViolation => (true, st)

/-- Events one after the other; each comes with the caller's choice for sessions. -/
def graphMachine : Machine GraphState (RustcEvent × Bool) where
  step st call := (applyRustcEventToGraph call.1 st call.2).2

/-! ### Numbers that are not cut -/

/-- Where a file stands, or will stand. -/
def filePosition (files : List String) (file : String) : Nat :=
  (files.findIdx? (· == file)).getD files.length

/-- The event is about a node. -/
def countsAsNode (symbol kind : String) : Bool :=
  !kind.isEmpty && (!symbol.isEmpty || kind == "MODULE")

/-- Symbol and file of the node that an event defines or updates. -/
def RustcEvent.node : RustcEvent → Option (String × String)
  | .nodeDefined symbol kind file _ | .nodeUpdated symbol kind file _ =>
    if countsAsNode symbol kind then some (symbol, file) else none
  | _ => none

/-- A node that is new gets a number of its own. -/
def NodeFits (call : RustcEvent × Bool) : Prop :=
  ∀ symbol file, call.1.node = some (symbol, file) → st.findNode symbol = none →
    st.graph.nodes.length < 2 ^ 32

/-- The file of a node is noted under its position. -/
def FileFits (call : RustcEvent × Bool) : Prop :=
  ∀ symbol file, call.1.node = some (symbol, file) → file ≠ "" →
    filePosition st.graph.files file < 2 ^ 32

end Canon.Graph
