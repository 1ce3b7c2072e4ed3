import Canon.Lib.Records
import Canon.Graph.Projection

/-! # The binary file of the graph

    `emit_graph_bin` and `load_graph_bin` of `artifact_writer.rs`: a header, one record
    for each node, one for each edge, and a table of zero-terminated texts.  The texts of
    the files come first and in order; a symbol is found by its place in the table and
    its length, and shares the text of a file or of another symbol.

    The sizes of the sections are checked before they are added to the size of the
    header; the sum itself is a plain `u32` addition.
-/

namespace Canon.Graph.Bin

/-! ### Data -/

structure CodeGraphNode where
  id : UInt32
  kind : String
  symbol : String
  fileId : Option UInt32
  line : Option UInt32
deriving DecidableEq, Repr

structure CodeGraphEdge where
  src : UInt32
  dst : UInt32
  kind : String
deriving DecidableEq, Repr

def headerSize : Nat := 32
def nodeRecordSize : Nat := 21
def edgeRecordSize : Nat := 9

/-- `u32::MAX`, for a node without a file or a line. -/
def none32 : Nat := 2 ^ 32 - 1

/-- `CGBN`. -/
def binMagic : Bytes := [67, 71, 66, 78]

def nodeKindCode : String → UInt8
  | "FUNCTION" => 1
  | "METHOD" => 2
  | "STRUCT" => 3
  | "ENUM" => 4
  | "TRAIT" => 5
  | "IMPL" => 6
  | "FIELD" => 7
  | "PARAM" => 8
  | "VARIABLE" => 9
  | "MODULE" => 10
  | "TYPE" => 11
  | "BASIC_BLOCK" => 12
  | "CALL_SITE" => 13
  | "ERROR" => 14
  | _ => 0

def edgeKindCode : String → UInt8
  | "CONTAINS" => 1
  | "HAS_FIELD" => 2
  | "HAS_METHOD" => 3
  | "HAS_BLOCK" => 4
  | "HAS_PARAM" => 5
  | "IMPORTS" => 6
  | "EXPORT" => 7
  | "PUBLIC_USE" => 8
  | "FLOW" => 9
  | "CALL" => 10
  | "RETURN" => 11
  | "UNWIND" => 12
  | "IMPLEMENTS" => 13
  | "FOR_TYPE" => 14
  | "USES_TYPE" => 15
  | "BOUNDS" => 16
  | "ASSIGN" => 17
  | "PROPAGATES" => 18
  | "ARG_TO_PARAM" => 19
  | "RETURNS" => 20
  | "ERROR_TO_FUNCTION" => 21
  | "ERROR_TO_BLOCK" => 22
  | _ => 0

def nodeKindStr : UInt8 → String
  | 1 => "FUNCTION"
  | 2 => "METHOD"
  | 3 => "STRUCT"
  | 4 => "ENUM"
  | 5 => "TRAIT"
  | 6 => "IMPL"
  | 7 => "FIELD"
  | 8 => "PARAM"
  | 9 => "VARIABLE"
  | 10 => "MODULE"
  | 11 => "TYPE"
  | 12 => "BASIC_BLOCK"
  | 13 => "CALL_SITE"
  | 14 => "ERROR"
  | _ => "UNKNOWN"

def edgeKindStr : UInt8 → String
  | 1 => "CONTAINS"
  | 2 => "HAS_FIELD"
  | 3 => "HAS_METHOD"
  | 4 => "HAS_BLOCK"
  | 5 => "HAS_PARAM"
  | 6 => "IMPORTS"
  | 7 => "EXPORT"
  | 8 => "PUBLIC_USE"
  | 9 => "FLOW"
  | 10 => "CALL"
  | 11 => "RETURN"
  | 12 => "UNWIND"
  | 13 => "IMPLEMENTS"
  | 14 => "FOR_TYPE"
  | 15 => "USES_TYPE"
  | 16 => "BOUNDS"
  | 17 => "ASSIGN"
  | 18 => "PROPAGATES"
  | 19 => "ARG_TO_PARAM"
  | 20 => "RETURNS"
  | 21 => "ERROR_TO_FUNCTION"
  | 22 => "ERROR_TO_BLOCK"
  | _ => "UNKNOWN"

/-! ### Writing -/

/-- The table of texts, with the place and the length of each text in it. -/
structure StringTable where
  bytes : Bytes
  offsets : FMap String (Nat × Nat)

namespace StringTable

def empty : StringTable where
  bytes := []
  offsets := FMap.empty

def push (t : StringTable) (s : String) : StringTable where
  bytes := t.bytes ++ (utf8 s.toList ++ [0])
  offsets := t.offsets.insert s (asU32 t.bytes.length, asU32 (utf8 s.toList).length)

/-- A symbol that is there already is not written again. -/
def pushNew (t : StringTable) (s : String) : StringTable :=
  if (t.offsets s).isSome then t else t.push s

end StringTable

def stringTable (nodes : List CodeGraphNode) (files : List String) : StringTable :=
  (nodes.map (·.symbol)).foldl StringTable.pushNew (files.foldl StringTable.push .empty)

def fileIndex (files : List String) : FMap String Nat :=
  FMap.empty.insertAll (files.zipIdx.map fun e => (e.1, asU32 e.2))

/-- The number of the file as it is written. -/
def fileIdOut (files : List String) (node : CodeGraphNode) : Nat :=
  ((node.fileId.bind fun id => files[id.toNat]?).bind (fileIndex files)).getD none32

def nodeRecord (t : StringTable) (files : List String) (node : CodeGraphNode) : Bytes :=
  let place := (t.offsets node.symbol).getD (0, 0)
  leBytes 4 node.id.toNat ++ (nodeKindCode node.kind :: leBytes 4 (fileIdOut files node) ++
    (leBytes 4 ((node.line.map UInt32.toNat).getD none32) ++
      (leBytes 4 place.1 ++ leBytes 4 place.2)))

def edgeRecord (edge : CodeGraphEdge) : Bytes :=
  leBytes 4 edge.src.toNat ++ (leBytes 4 edge.dst.toNat ++ [edgeKindCode edge.kind])

def header (nNodes nEdges nFiles strTableOffset : Nat) : Bytes :=
  binMagic ++ (leBytes 4 1 ++ (leBytes 4 nNodes ++ (leBytes 4 nEdges ++ (leBytes 4 nFiles ++
    (leBytes 4 strTableOffset ++ List.replicate 8 0)))))

/-- The file that is written. -/
def emitGraphBin (nodes : List CodeGraphNode) (edges : List CodeGraphEdge) (files : List String) :
    Except String Bytes :=
  let nNodes := asU32 nodes.length
  let nEdges := asU32 edges.length
  let table := stringTable nodes files
  -- `checked_mul`
  if nNodes * nodeRecordSize ≥ 2 ^ 32 then .error "graph.bin node section too large"
  else if nEdges * edgeRecordSize ≥ 2 ^ 32 then .error "graph.bin edge section too large"
  else
    let strTableOffset := asU32 (headerSize + nNodes * nodeRecordSize + nEdges * edgeRecordSize)
    .ok (header nNodes nEdges (asU32 files.length) strTableOffset ++
      (nodes.flatMap (nodeRecord table files) ++ (edges.flatMap edgeRecord ++ table.bytes)))

/-! ### Reading -/

inductive LoadError where
  | error (message : String)
  /-- A slice that starts behind its end. -/
  | panicked
deriving DecidableEq, Repr

/-- `str::from_utf8` with the empty text for anything else. -/
def textOf (bytes : Bytes) : String := String.ofList ((fromUtf8 bytes).getD [])

def readFiles (table : Bytes) : (count cursor : Nat) → Except LoadError (List String)
  | 0, _ => .ok []
  | count + 1, cursor =>
    if cursor > table.length then .error .panicked
    else
      let text := (table.drop cursor).takeWhile (· != 0)
      match readFiles table count (cursor + text.length + 1) with
      | .error e => .error e
      | .ok files => .ok (textOf text :: files)

def readSymbol (table : Bytes) (symOff symLen : Nat) : String :=
  if symLen = 0 then ""
  else if symOff + symLen ≤ table.length then textOf ((table.drop symOff).take symLen)
  else ""

/-- A number unless it is the one for none. -/
def some32 (n : Nat) : Option UInt32 := if n = none32 then none else some (UInt32.ofNat n)

def readNode (table data : Bytes) (pos : Nat) : CodeGraphNode where
  id := UInt32.ofNat (readLe data pos 4)
  kind := nodeKindStr (readByte data (pos + 4))
  symbol := readSymbol table (readLe data (pos + 13) 4) (readLe data (pos + 17) 4)
  fileId := some32 (readLe data (pos + 5) 4)
  line := some32 (readLe data (pos + 9) 4)

def readEdge (data : Bytes) (pos : Nat) : CodeGraphEdge where
  src := UInt32.ofNat (readLe data pos 4)
  dst := UInt32.ofNat (readLe data (pos + 4) 4)
  kind := edgeKindStr (readByte data (pos + 8))

/-- The decoder; `node` reads a node with the names of the files and the table of texts. -/
def loadGraphBinWith {ν : Type} (node : List String → Bytes → Nat → ν) (data : Bytes) :
    Except LoadError (List ν × List CodeGraphEdge × List String) :=
  if data.length < headerSize then .error (.error "graph.bin too small")
  else if data.take 4 ≠ binMagic then .error (.error "graph.bin magic mismatch")
  else if readLe data 4 4 ≠ 1 then .error (.error "graph.bin version mismatch")
  else
    let nNodes := readLe data 8 4
    let nEdges := readLe data 12 4
    let nFiles := readLe data 16 4
    let strTableOffset := readLe data 20 4
    let edgesOffset := headerSize + nNodes * nodeRecordSize
    if strTableOffset ≠ edgesOffset + nEdges * edgeRecordSize then
      .error (.error "graph.bin string table offset mismatch")
    -- With this, all records are inside the data.
    else if data.length < strTableOffset then .error (.error "graph.bin truncated")
    else
      let table := data.drop strTableOffset
      match readFiles table nFiles 0 with
      | .error e => .error e
      | .ok files =>
        .ok (readEach (node files table) nodeRecordSize nNodes headerSize,
          readEach (readEdge data) edgeRecordSize nEdges edgesOffset, files)

def loadGraphBin (data : Bytes) :
    Except LoadError (List CodeGraphNode × List CodeGraphEdge × List String) :=
  loadGraphBinWith (fun _ table => readNode table data) data

end Canon.Graph.Bin
