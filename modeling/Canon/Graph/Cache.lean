import Canon.Lib.Cells
import Canon.Graph.Replay

/-! # The graph cache

    `cache.rs`: three tables of a log (files of modules, types, relations of types) that
    are kept in a file together with the length of the log they were made from.  The
    next call goes on at that length; if the log is shorter by now it starts again at the
    front, on the tables it has.

    The machine here is a log of JSON lines under the cache: it grows by whole lines or
    is replaced by a shorter one, and each change is followed by a call.
-/

namespace Canon.Graph

open Canon.Tlog

/-! ### Tables -/

structure TypeNodeCache where
  kind : String
  file : String
  line : Option Nat
deriving DecidableEq

structure TypeEdgeCache where
  src : String
  dst : String
  rel : String
deriving DecidableEq

structure GraphCache where
  lastOffset : Nat
  moduleFiles : FMap String String
  typeNodes : FMap String TypeNodeCache
  typeEdges : FMap TypeEdgeCache Unit

namespace GraphCache

def default : GraphCache where
  lastOffset := 0
  moduleFiles := FMap.empty
  typeNodes := FMap.empty
  typeEdges := FMap.empty

end GraphCache

def typeKinds : List String := ["STRUCT", "ENUM", "TRAIT", "IMPL", "TYPE"]

def relKinds : List String :=
  ["HAS_FIELD", "HAS_METHOD", "IMPLEMENTS", "FOR_TYPE", "USES_TYPE", "BOUNDS"]

/-- The modules a symbol lies in, outermost first. -/
def modulePrefixes (sym : String) : List String :=
  let parts := Text.splitPath sym.toList
  (List.range' 1 (parts.length - 1)).map fun n =>
    String.ofList (Text.join "::".toList (parts.take n))

/-- `entry(key).or_insert(value)`. -/
def orInsert (m : FMap String String) (key value : String) : FMap String String :=
  if (m key).isNone then m.insert key value else m

/-- A module has its own file; the modules around it have that file until they have
    another. -/
def cacheModule (cache : GraphCache) (sym file : String) : GraphCache :=
  if sym = "" then { cache with moduleFiles := cache.moduleFiles.insert "" file }
  else { cache with
    moduleFiles := (modulePrefixes sym).foldl (orInsert · · file)
      (cache.moduleFiles.insert sym file) }

def cacheNode (cache : GraphCache) (sym kind file : String) (line : Nat) : GraphCache :=
  if sym = "" ∧ kind ≠ "MODULE" then cache
  else
    let cache := if kind = "MODULE" then cacheModule cache sym file else cache
    let node : TypeNodeCache := { kind := kind, file := file, line := lineOf line }
    if kind ∈ typeKinds ∧ sym ≠ "" then
      { cache with typeNodes := cache.typeNodes.insert sym node }
    else cache

/-- The edge of an event, if it is one the cache keeps. -/
def typeEdge? (src dst kind : String) : Option TypeEdgeCache :=
  if kind ∉ relKinds ∨ src = "" ∨ dst = "" then none
  else some { src := src, dst := dst, rel := kind }

def applyCacheEvent (cache : GraphCache) : RustcEvent → GraphCache
  | .sessionStart _ =>
    { cache with
      moduleFiles := FMap.empty, typeNodes := FMap.empty, typeEdges := FMap.empty }
  | .nodeDefined sym kind file line | .nodeUpdated sym kind file line =>
    cacheNode cache sym kind file line
  | .nodeRemoved sym =>
    if sym = "" then cache
    else { cache with
      moduleFiles := cache.moduleFiles.erase sym
      typeNodes := cache.typeNodes.erase sym
      typeEdges := cache.typeEdges.retain fun edge => edge.src ≠ sym ∧ edge.dst ≠ sym }
  | .edgeDefined src dst kind =>
    match typeEdge? src dst kind with
    | none => cache
    | some edge => { cache with typeEdges := cache.typeEdges.insert edge () }
  | .edgeRemoved src dst kind =>
    match typeEdge? src dst kind with
    | none => cache
    | some edge => { cache with typeEdges := cache.typeEdges.erase edge }
  | _ => cache

/-- `update_graph_cache` on a log file, with the cache file if there is one.  Nothing
    when a line is not UTF-8. -/
def updateGraphCache (S : GraphSerde) (cacheFile : Option GraphCache) (tlog : Bytes) :
    Option GraphCache :=
  let cache := cacheFile.getD .default
  -- The tables stay when the offset is set back.
  let offset := if cache.lastOffset > tlog.length then 0 else cache.lastOffset
  ((bufLines (tlog.drop offset)).mapM id).map fun lines =>
    { (lines.filterMap S.eventOf).foldl applyCacheEvent cache with lastOffset := tlog.length }

/-! ### The log and its cache -/

/-- A log of JSON lines: whole lines of UTF-8. -/
structure JsonlFile where
  bytes : Bytes
  whole : WholeLines bytes
  utf8 : ∀ line ∈ bufLines bytes, line ≠ none

namespace JsonlFile

def append (file more : JsonlFile) : JsonlFile where
  bytes := file.bytes ++ more.bytes
  whole := file.whole.append more.whole
  utf8 := by
    intro line hline
    rw [bufLines_append file.whole] at hline
    rcases List.mem_append.mp hline with h | h
    · exact file.utf8 line h
    · exact more.utf8 line h

/-- The code events of a log. -/
def events (S : GraphSerde) (file : JsonlFile) : List RustcEvent :=
  ((bufLines file.bytes).filterMap id).filterMap S.eventOf

end JsonlFile

inductive LogChange where
  | extend (more : JsonlFile)
  /-- The log is replaced by a shorter one. -/
  | replace (file : JsonlFile)

structure CachedLog where
  file : JsonlFile
  cacheFile : Option GraphCache
  /-- What the last call returned. -/
  returned : Option GraphCache
  /-- What the cache had when the log was last replaced. -/
  leftover : GraphCache

namespace CachedLog

/-- A call of `update_graph_cache`; it writes the cache file unless it fails. -/
def call (S : GraphSerde) (s : CachedLog) : CachedLog :=
  let returned := updateGraphCache S s.cacheFile s.file.bytes
  { s with returned := returned, cacheFile := returned.or s.cacheFile }

/-- The first call, on a log without a cache. -/
def start (S : GraphSerde) (file : JsonlFile) : CachedLog :=
  call S { file := file, cacheFile := none, returned := none, leftover := .default }

def step (S : GraphSerde) (s : CachedLog) : LogChange → CachedLog
  | .extend more => call S { s with file := s.file.append more }
  | .replace file =>
    -- A replacement that is not shorter is outside of what is looked at.
    if file.bytes.length < s.file.bytes.length then
      call S { s with file := file, leftover := s.cacheFile.getD .default }
    else s

/-- The tables that were returned are those of one call on the log without a cache. -/
def Fresh (S : GraphSerde) (s : CachedLog) : Prop :=
  ∃ cache fresh, s.returned = some cache ∧ updateGraphCache S none s.file.bytes = some fresh ∧
    cache.moduleFiles = fresh.moduleFiles ∧ cache.typeNodes = fresh.typeNodes ∧
    cache.typeEdges = fresh.typeEdges

end CachedLog

def cachedLogMachine (S : GraphSerde) : Machine CachedLog LogChange where
  step := CachedLog.step S

end Canon.Graph
