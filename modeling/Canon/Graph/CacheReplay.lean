import Canon.Graph.Cache
import Canon.Graph.Incremental

/-! # The cache against a fresh replay

    Every event changes each table entry by entry, so what a call returns is decided
    entry by entry, too: the events of the whole log, on top of what the cache had when
    the log was last replaced.  An entry from that time survives unless the new log sets
    it or takes it out.
-/

namespace Canon.Graph

open Canon.Tlog

/-! ### Entries -/

def moduleOp : RustcEvent → String → CellOp String
  | .sessionStart _, _ => .set none
  | .nodeDefined sym kind file _, k | .nodeUpdated sym kind file _, k =>
    if kind ≠ "MODULE" then .keep
    else if k = sym then .set (some file)
    else if k ∈ modulePrefixes sym then .orInsert file
    else .keep
  | .nodeRemoved sym, k => if sym ≠ "" ∧ k = sym then .set none else .keep
  | _, _ => .keep

def typeNodeOp : RustcEvent → String → CellOp TypeNodeCache
  | .sessionStart _, _ => .set none
  | .nodeDefined sym kind file line, k | .nodeUpdated sym kind file line, k =>
    if kind ∈ typeKinds ∧ sym ≠ "" ∧ k = sym then
      .set (some { kind := kind, file := file, line := lineOf line })
    else .keep
  | .nodeRemoved sym, k => if sym ≠ "" ∧ k = sym then .set none else .keep
  | _, _ => .keep

def typeEdgeOp : RustcEvent → TypeEdgeCache → CellOp Unit
  | .sessionStart _, _ => .set none
  | .nodeRemoved sym, edge =>
    if sym ≠ "" ∧ (edge.src = sym ∨ edge.dst = sym) then .set none else .keep
  | .edgeDefined src dst kind, edge =>
    if typeEdge? src dst kind = some edge then .set (some ()) else .keep
  | .edgeRemoved src dst kind, edge =>
    if typeEdge? src dst kind = some edge then .set none else .keep
  | _, _ => .keep

/-- Whatever the tables had before, they end up as if they had been empty: every entry
    that was there is set or taken out by some event, or is a file of an outer module
    that the events would have put there themselves. -/
structure Settled (before : GraphCache) (es : List RustcEvent) : Prop where
  moduleFiles : ∀ sym, CellOp.Settles (es.map (moduleOp · sym)) (before.moduleFiles sym)
  typeNodes : ∀ sym, CellOp.Settles (es.map (typeNodeOp · sym)) (before.typeNodes sym)
  typeEdges : ∀ edge, CellOp.Settles (es.map (typeEdgeOp · edge)) (before.typeEdges edge)

section Entries

variable {cache : GraphCache}

theorem orInsert_apply (m : FMap String String) (key value k : String) :
    orInsert m key value k = if k = key then (m k).or (some value) else m k := by
  unfold orInsert
  by_cases hk : k = key
  · subst hk
    cases hm : m k with
    | none => simp
    | some v => simp [hm]
  · by_cases hm : (m key).isNone = true
    · simp [hm, hk]
    · simp [hm, hk]

theorem foldl_orInsert (keys : List String) (file : String) (m : FMap String String) (k : String) :
    keys.foldl (orInsert · · file) m k = if k ∈ keys then (m k).or (some file) else m k := by
  induction keys generalizing m with
  | nil => simp
  | cons key keys ih =>
    rw [List.foldl_cons, ih, orInsert_apply]
    by_cases hk : k = key
    · simp [hk]
    · simp [hk]

theorem cacheModule_moduleFiles (sym file k : String) :
    (cacheModule cache sym file).moduleFiles k =
      if k = sym then some file
      else if k ∈ modulePrefixes sym then (cache.moduleFiles k).or (some file)
      else cache.moduleFiles k := by
  unfold cacheModule
  split
  · rename_i hsym
    have hno : modulePrefixes "" = [] := rfl
    subst hsym
    by_cases hk : k = ""
    · simp [hk]
    · simp [hk, hno]
  · dsimp only
    rw [foldl_orInsert]
    by_cases hk : k = sym
    · simp [hk]
    · simp [hk]

theorem moduleFiles_cacheNode (sym kind file : String) (line : Nat) (k : String) :
    (cacheNode cache sym kind file line).moduleFiles k =
      (moduleOp (.nodeDefined sym kind file line) k).apply (cache.moduleFiles k) := by
  have hsame : ∀ c : GraphCache, ∀ p : Prop, ∀ _ : Decidable p, ∀ node,
      (if p then { c with typeNodes := c.typeNodes.insert sym node } else c).moduleFiles =
        c.moduleFiles := by
    intro c p _ node
    split <;> rfl
  unfold cacheNode moduleOp
  by_cases hkind : kind = "MODULE"
  · rw [if_neg (fun h => h.2 hkind)]
    dsimp only
    rw [hsame, if_pos hkind, cacheModule_moduleFiles]
    by_cases hk : k = sym
    · simp [hkind, hk, CellOp.apply]
    · by_cases hmem : k ∈ modulePrefixes sym
      · simp [hkind, hk, hmem, CellOp.apply]
      · simp [hkind, hk, hmem, CellOp.apply]
  · have hkeep : (cacheNode cache sym kind file line).moduleFiles = cache.moduleFiles := by
      unfold cacheNode
      split
      · rfl
      · dsimp only
        rw [hsame]
    rw [cacheNode] at hkeep
    rw [hkeep]
    simp [hkind, CellOp.apply]

theorem typeNodes_cacheNode (sym kind file : String) (line : Nat) (k : String) :
    (cacheNode cache sym kind file line).typeNodes k =
      (typeNodeOp (.nodeDefined sym kind file line) k).apply (cache.typeNodes k) := by
  have hmodule : (if kind = "MODULE" then cacheModule cache sym file else cache).typeNodes =
      cache.typeNodes := by
    unfold cacheModule
    split
    · split <;> rfl
    · rfl
  unfold cacheNode typeNodeOp
  by_cases hskip : sym = "" ∧ kind ≠ "MODULE"
  · simp [hskip, CellOp.apply]
  · rw [if_neg hskip]
    dsimp only
    by_cases htype : kind ∈ typeKinds ∧ sym ≠ ""
    · rw [if_pos htype]
      dsimp only
      rw [hmodule]
      by_cases hk : k = sym
      · rw [if_pos ⟨htype.1, htype.2, hk⟩, hk, FMap.insert_self]
        rfl
      · rw [if_neg (fun h => hk h.2.2), FMap.insert_of_ne _ _ hk]
        rfl
    · rw [if_neg htype, hmodule, if_neg (fun h => htype ⟨h.1, h.2.1⟩)]
      rfl

theorem typeEdges_cacheNode (sym kind file : String) (line : Nat) :
    (cacheNode cache sym kind file line).typeEdges = cache.typeEdges := by
  have hmodule : (if kind = "MODULE" then cacheModule cache sym file else cache).typeEdges =
      cache.typeEdges := by
    unfold cacheModule
    split
    · split <;> rfl
    · rfl
  unfold cacheNode
  split
  · rfl
  · dsimp only
    split
    · exact hmodule
    · exact hmodule

theorem moduleFiles_applyCacheEvent (cache : GraphCache) (e : RustcEvent) (k : String) :
    (applyCacheEvent cache e).moduleFiles k = (moduleOp e k).apply (cache.moduleFiles k) := by
  cases e with
  | sessionStart => rfl
  | nodeDefined sym kind file line | nodeUpdated sym kind file line =>
    exact moduleFiles_cacheNode sym kind file line k
  | nodeRemoved sym =>
    unfold applyCacheEvent moduleOp
    by_cases hsym : sym = ""
    · simp [hsym, CellOp.apply]
    · by_cases hk : k = sym
      · simp [hsym, hk, CellOp.apply]
      · simp [hsym, hk, CellOp.apply]
  | edgeDefined src dst kind | edgeRemoved src dst kind =>
    unfold applyCacheEvent
    dsimp only
    split <;> rfl
  | _ => rfl

theorem typeNodes_applyCacheEvent (cache : GraphCache) (e : RustcEvent) (k : String) :
    (applyCacheEvent cache e).typeNodes k = (typeNodeOp e k).apply (cache.typeNodes k) := by
  cases e with
  | sessionStart => rfl
  | nodeDefined sym kind file line | nodeUpdated sym kind file line =>
    exact typeNodes_cacheNode sym kind file line k
  | nodeRemoved sym =>
    unfold applyCacheEvent typeNodeOp
    by_cases hsym : sym = ""
    · simp [hsym, CellOp.apply]
    · by_cases hk : k = sym
      · simp [hsym, hk, CellOp.apply]
      · simp [hsym, hk, CellOp.apply]
  | edgeDefined src dst kind | edgeRemoved src dst kind =>
    unfold applyCacheEvent
    dsimp only
    split <;> rfl
  | _ => rfl

theorem typeEdges_applyCacheEvent (cache : GraphCache) (e : RustcEvent) (edge : TypeEdgeCache) :
    (applyCacheEvent cache e).typeEdges edge =
    (typeEdgeOp e edge).apply (cache.typeEdges edge) := by
  cases e with
  | sessionStart => rfl
  | nodeDefined sym kind file line | nodeUpdated sym kind file line =>
    show (cacheNode cache sym kind file line).typeEdges edge = cache.typeEdges edge
    rw [typeEdges_cacheNode]
  | nodeRemoved sym =>
    unfold applyCacheEvent typeEdgeOp
    by_cases hsym : sym = ""
    · simp [hsym, CellOp.apply]
    · by_cases hedge : edge.src = sym ∨ edge.dst = sym
      · dsimp only
        rw [if_neg hsym, if_pos ⟨hsym, hedge⟩]
        have htest : ¬ (edge.src ≠ sym ∧ edge.dst ≠ sym) := by tauto
        simp only [FMap.retain, htest, decide_false, Bool.false_eq_true, if_false]
        rfl
      · dsimp only
        rw [if_neg hsym, if_neg (fun h => hedge h.2)]
        have htest : edge.src ≠ sym ∧ edge.dst ≠ sym := by tauto
        simp only [FMap.retain, htest, decide_true, if_true, ne_eq, not_false_eq_true, and_self]
        rfl
  | edgeDefined src dst kind =>
    unfold applyCacheEvent typeEdgeOp
    dsimp only
    cases typeEdge? src dst kind with
    | none => rfl
    | some defined =>
      by_cases hedge : defined = edge
      · simp [hedge, CellOp.apply]
      · simp [hedge, Ne.symm hedge, CellOp.apply]
  | edgeRemoved src dst kind =>
    unfold applyCacheEvent typeEdgeOp
    dsimp only
    cases typeEdge? src dst kind with
    | none => rfl
    | some removed =>
      by_cases hedge : removed = edge
      · simp [hedge, CellOp.apply]
      · simp [hedge, Ne.symm hedge, CellOp.apply]
  | _ => rfl

/-- The tables are those of the events alone exactly when all that was there is settled. -/
theorem settled_iff (before : GraphCache) (es : List RustcEvent) :
    ((es.foldl applyCacheEvent before).moduleFiles =
          (es.foldl applyCacheEvent .default).moduleFiles ∧
        (es.foldl applyCacheEvent before).typeNodes =
          (es.foldl applyCacheEvent .default).typeNodes ∧
        (es.foldl applyCacheEvent before).typeEdges =
          (es.foldl applyCacheEvent .default).typeEdges) ↔
      Settled before es := by
  rw [foldl_table_eq_iff moduleFiles_applyCacheEvent (fun _ => rfl),
    foldl_table_eq_iff typeNodes_applyCacheEvent (fun _ => rfl),
    foldl_table_eq_iff typeEdges_applyCacheEvent (fun _ => rfl)]
  constructor
  · intro h
    exact ⟨h.1, h.2.1, h.2.2⟩
  · intro h
    exact ⟨h.moduleFiles, h.typeNodes, h.typeEdges⟩

end Entries

/-! ### Calls -/

section Calls

variable {S : GraphSerde} {s : CachedLog}

/-- No event looks at the offset. -/
theorem foldl_withOffset (es : List RustcEvent) (cache : GraphCache) (offset : Nat) :
    es.foldl applyCacheEvent { cache with lastOffset := offset } =
      { es.foldl applyCacheEvent cache with lastOffset := offset } := by
  induction es generalizing cache with
  | nil => rfl
  | cons e es ih =>
    have hstep : applyCacheEvent { cache with lastOffset := offset } e =
        { applyCacheEvent cache e with lastOffset := offset } := by
      cases e with
      | nodeDefined sym kind file line | nodeUpdated sym kind file line =>
        simp only [applyCacheEvent, cacheNode, cacheModule]
        split_ifs <;> rfl
      | nodeRemoved sym =>
        simp only [applyCacheEvent]
        split_ifs <;> rfl
      | edgeDefined src dst kind | edgeRemoved src dst kind =>
        simp only [applyCacheEvent]
        cases typeEdge? src dst kind with
        | none => rfl
        | some edge => rfl
      | _ => rfl
    rw [List.foldl_cons, hstep, ih, List.foldl_cons]

theorem mapM_id_of_forall_some {α : Type} {xs : List (Option α)} (h : ∀ x ∈ xs, x ≠ none) :
    xs.mapM id = some (xs.filterMap id) := by
  induction xs with
  | nil => rfl
  | cons x xs ih =>
    cases x with
    | none => exact absurd rfl (h none (by simp))
    | some v =>
      have hrest := ih (fun y hy => h y (by simp [hy]))
      rw [List.mapM_cons, hrest]
      rfl

/-- A call reads the lines behind its offset. -/
theorem updateGraphCache_eq {cacheFile : Option GraphCache} {cache : GraphCache} {tlog : Bytes}
    {offset : Nat} (unread : JsonlFile) (hcache : cacheFile.getD .default = cache)
    (hoffset : (if cache.lastOffset > tlog.length then 0 else cache.lastOffset) = offset)
    (hunread : tlog.drop offset = unread.bytes) :
    updateGraphCache S cacheFile tlog =
      some { (unread.events S).foldl applyCacheEvent cache with lastOffset := tlog.length } := by
  unfold updateGraphCache
  dsimp only
  rw [hcache, hoffset, hunread, mapM_id_of_forall_some unread.utf8]
  rfl

theorem events_append (file more : JsonlFile) :
    (file.append more).events S = file.events S ++ more.events S := by
  unfold JsonlFile.events JsonlFile.append
  dsimp only
  rw [bufLines_append file.whole, List.filterMap_append, List.filterMap_append]

/-- What a call without a cache file returns. -/
theorem updateGraphCache_none (file : JsonlFile) :
    updateGraphCache S none file.bytes =
      some { (file.events S).foldl applyCacheEvent .default with
        lastOffset := file.bytes.length } :=
  updateGraphCache_eq file rfl rfl rfl

/-- The events of the log on top of what was left. -/
def CachedLog.tables (S : GraphSerde) (s : CachedLog) : GraphCache :=
  { (s.file.events S).foldl applyCacheEvent s.leftover with
    lastOffset := s.file.bytes.length }

/-- The cache has the events of the whole log. -/
structure CachedLog.Inv (S : GraphSerde) (s : CachedLog) : Prop where
  cacheFile : s.cacheFile = some (s.tables S)
  returned : s.returned = some (s.tables S)

theorem CachedLog.Inv.of_call {s : CachedLog}
    (h : updateGraphCache S s.cacheFile s.file.bytes = some (s.tables S)) : (s.call S).Inv S := by
  unfold CachedLog.call
  rw [h]
  exact ⟨rfl, rfl⟩

theorem inv_start (file : JsonlFile) : (CachedLog.start S file).Inv S :=
  .of_call (updateGraphCache_none file)

theorem CachedLog.Inv.step (h : s.Inv S) (change : LogChange) : (s.step S change).Inv S := by
  cases change with
  | extend more =>
    apply CachedLog.Inv.of_call
    have hlen : ¬ (s.tables S).lastOffset > (s.file.append more).bytes.length := by
      show ¬ s.file.bytes.length > (s.file.bytes ++ more.bytes).length
      simp
    have hcache : s.cacheFile.getD .default = s.tables S := by rw [h.cacheFile]; rfl
    have hunread : (s.file.append more).bytes.drop s.file.bytes.length = more.bytes := by
      show (s.file.bytes ++ more.bytes).drop s.file.bytes.length = more.bytes
      rw [List.drop_left]
    have hfold := foldl_withOffset (more.events S)
      ((s.file.events S).foldl applyCacheEvent s.leftover) s.file.bytes.length
    apply (updateGraphCache_eq more hcache (if_neg hlen) hunread).trans
    unfold CachedLog.tables
    dsimp only
    rw [hfold, events_append, List.foldl_append]
  | replace file =>
    unfold CachedLog.step
    dsimp only
    split
    · rename_i hshort
      apply CachedLog.Inv.of_call
      -- The log is shorter than the offset says, so everything is read again.
      have hoffset : (if (s.cacheFile.getD .default).lastOffset > file.bytes.length then 0
          else (s.cacheFile.getD .default).lastOffset) = 0 := by
        rw [h.cacheFile]
        exact if_pos hshort
      exact updateGraphCache_eq file rfl hoffset rfl
    · exact h

/-- **The cache is a function of the log** after a sequence of changes exactly when every
    entry the tables had at the last replacement is settled by the events that are in
    the log now. -/
theorem cache_fresh_iff (S : GraphSerde) (first : JsonlFile) (changes : List LogChange) :
    ((cachedLogMachine S).run (.start S first) changes).Fresh S ↔
      Settled ((cachedLogMachine S).run (.start S first) changes).leftover
        (((cachedLogMachine S).run (.start S first) changes).file.events S) := by
  have hinv : ((cachedLogMachine S).run (.start S first) changes).Inv S := by
    apply Machine.run_invariant (I := CachedLog.Inv S)
    · intro s change h
      exact h.step change
    · exact inv_start first
  generalize (cachedLogMachine S).run (.start S first) changes = s at hinv ⊢
  rw [← settled_iff]
  constructor
  · rintro ⟨cache, fresh, hreturned, hfresh, hmodules, hnodes, hedges⟩
    rw [hinv.returned] at hreturned
    rw [updateGraphCache_none] at hfresh
    obtain rfl := Option.some.inj hreturned
    obtain rfl := Option.some.inj hfresh
    exact ⟨hmodules, hnodes, hedges⟩
  · rintro ⟨hmodules, hnodes, hedges⟩
    exact ⟨_, _, hinv.returned, updateGraphCache_none s.file, hmodules, hnodes, hedges⟩

end Calls

/-! ### A replaced log -/

section Sample

/-- The log that has these lines. -/
def JsonlFile.ofLines (lines : List LogLine) : JsonlFile where
  bytes := fileOf lines
  whole := by
    rcases List.eq_nil_or_concat' lines with rfl | ⟨front, l, rfl⟩
    · exact .inl rfl
    · right
      rw [fileOf_append, List.getLast?_append, fileOf_cons]
      simp
  utf8 := by
    intro line hline
    rw [bufLines_fileOf] at hline
    obtain ⟨l, -, rfl⟩ := List.mem_map.mp hline
    simp

theorem bytes_ofLines (lines : List LogLine) : (JsonlFile.ofLines lines).bytes = fileOf lines := rfl

theorem events_ofLines (S : GraphSerde) (lines : List LogLine) :
    (JsonlFile.ofLines lines).events S = S.events lines := by
  unfold JsonlFile.events JsonlFile.ofLines GraphSerde.events
  dsimp only
  rw [bufLines_fileOf]
  simp [List.filterMap_map]

def structData : Json :=
  .obj [("NodeDefined", .obj [("symbol", .str "x"), ("kind", .str "STRUCT"), ("file", .str ""),
    ("line", .nat 0), ("col", .nat 0), ("lo", .nat 0), ("hi", .nat 0)])]

def structText : String :=
  "\x7b\"NodeDefined\":\x7b\"symbol\":\"x\",\"kind\":\"STRUCT\",\"file\":\"\","
    ++ "\"line\":0,\"col\":0,\"lo\":0,\"hi\":0\x7d\x7d"

def structSerde : GraphSerde :=
  { Serde.ofTable [(sampleEvent "n1" .code 1 structData, sampleText "n1" "code" 1 structText)] with
    parseRustcEventValue := sampleRustcEvent }

/-- A log with one type. -/
def structLine : LogLine := sampleLine "n1" 1 structText (by decide +kernel)

theorem structLine_eventOf :
    structSerde.eventOf structLine.text = some (.nodeDefined "x" "STRUCT" "" 0) := by
  have hparse : parseAnyEvent structSerde structLine.text =
      some (sampleEvent "n1" .code 1 structData) :=
    @tableLine_parse structSerde _ rfl (List.nodup_singleton "n1")
      (List.nodup_singleton _) "n1" 1 structText structData List.mem_cons_self _
  rw [GraphSerde.eventOf, hparse]
  rfl

theorem start_file (S : GraphSerde) (file : JsonlFile) : (CachedLog.start S file).file = file := rfl

theorem start_leftover (S : GraphSerde) (file : JsonlFile) :
    (CachedLog.start S file).leftover = .default := rfl

/-- A log that is emptied leaves its types in the cache. -/
theorem not_fresh_of_emptied {S : GraphSerde} {s : CachedLog} (h : s.Inv S)
    (hlen : 0 < s.file.bytes.length) (sym : String) (hkept : (s.tables S).typeNodes sym ≠ none) :
    ¬ (s.step S (.replace (.ofLines []))).Fresh S := by
  have hstep : s.step S (.replace (.ofLines [])) =
      CachedLog.call S { s with file := .ofLines [], leftover := s.cacheFile.getD .default } :=
    if_pos hlen
  rintro ⟨cache, fresh, hreturned, hfresh, -, hnodes, -⟩
  rw [(h.step (.replace (.ofLines []))).returned] at hreturned
  rw [updateGraphCache_none] at hfresh
  obtain rfl := Option.some.inj hreturned
  obtain rfl := Option.some.inj hfresh
  rw [hstep, h.cacheFile] at hnodes
  exact hkept (congrFun hnodes sym)

/-- The log is emptied, and the type is still in the cache. -/
theorem emptied_log_keeps_type :
    ¬ ((cachedLogMachine structSerde).run (.start structSerde (.ofLines [structLine]))
        [.replace (.ofLines [])]).Fresh structSerde := by
  have hevents : (JsonlFile.ofLines [structLine]).events structSerde =
      [.nodeDefined "x" "STRUCT" "" 0] := by
    rw [events_ofLines, GraphSerde.events_cons _ structLine_eventOf]
    rfl
  rw [Machine.run_cons, Machine.run_nil]
  generalize hopened : CachedLog.start structSerde (.ofLines [structLine]) = opened
  have hinv : opened.Inv structSerde := hopened ▸ inv_start (.ofLines [structLine])
  refine not_fresh_of_emptied hinv ?_ "x" ?_
  · have hfile : opened.file = .ofLines [structLine] := hopened ▸ start_file _ _
    rw [hfile, bytes_ofLines, List.length_pos_iff, ne_eq, fileOf_eq_nil]
    exact List.cons_ne_nil _ _
  · unfold CachedLog.tables
    rw [← hopened, start_file, start_leftover, hevents]
    decide +kernel

end Sample

end Canon.Graph
