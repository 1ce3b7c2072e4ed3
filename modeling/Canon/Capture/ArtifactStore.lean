import Canon.Lib.Bytes
import Canon.Lib.Machine
import Mathlib.Data.List.Dedup
import Mathlib.Data.List.Perm.Subperm

/-! # The store of graph artifacts

    `write_graph_artifact` of `artifacts/store.rs`: a capture is kept under the hash of its text,
    two indexes refer to the captures, and old captures are removed.  The hash, the order in
    which a directory is listed and the times of the files come from outside; reads, writes and
    removals of files are taken to succeed.

    * `writeGraphArtifact`, `updateGraphArtifactIndex`, `pruneGraphArtifacts`: the functions,
    * `Intact`: every reference has its artifact,
    * `pruneGraphArtifacts_eq`: what pruning leaves,
    * `store_integrity`: every run.
-/

namespace Canon.Capture.ArtifactStore

/-! ### Model -/

structure GraphArtifactSummary where
  artifactId : String
  artifactPath : String
  crateName : String
  nodeCount : Nat
  edgeCount : Nat
  fileCount : Nat
  callEdgeCount : Nat
  moduleEdgeCount : Nat
  cfgEdgeCount : Nat
deriving DecidableEq, Repr

/-- What the store takes of a `CanonIR`: its text and the sizes of its parts. -/
structure CapturedIr where
  serialized : Bytes
  nodes : Nat
  nameEdges : Nat
  typeEdges : Nat
  callEdges : Nat
  moduleEdges : Nat
  cfgEdges : Nat
  regionEdges : Nat
  valueEdges : Nat
  macroEdges : Nat

/-- The files of the spans of a symbol. -/
structure SymbolSpanBundle where
  spansBySymbol : List (String × List String)

/-- The files of a directory by their names. -/
abbrev Files (α : Type) := List (String × α)

namespace Files

variable {α : Type}

def names (files : Files α) : List String := files.map (·.1)

def write (files : Files α) (name : String) (value : α) : Files α :=
  if name ∈ files.names then files.map fun e => if e.1 = name then (name, value) else e
  else files ++ [(name, value)]

def remove (files : Files α) (name : String) : Files α := files.filter (·.1 ≠ name)

end Files

/-- `state/graph` with its index. -/
structure Store where
  artifacts : Files Bytes
  latestWorkspace : Option GraphArtifactSummary
  byCrate : Files GraphArtifactSummary
  byHash : Files GraphArtifactSummary

def Store.empty : Store := ⟨[], none, [], []⟩

/-- What a call gets from its surroundings: the order in which the directory is listed, the
    times of its files, and the limit. -/
structure Surroundings where
  order : List String → List String
  order_perm : ∀ names, (order names).Perm names
  modified : String → Nat
  retainLimit : Nat

def totalEdgeCount (ir : CapturedIr) : Nat :=
  ir.nameEdges + ir.typeEdges + ir.callEdges + ir.moduleEdges + ir.cfgEdges + ir.regionEdges +
    ir.valueEdges + ir.macroEdges

def uniqueFileCount : Option SymbolSpanBundle → Nat
  | none => 0
  | some bundle => ((bundle.spansBySymbol.flatMap (·.2)).filter (· ≠ "")).dedup.length

variable (digest : Bytes → String) (sur : Surroundings) (st : Store)

def referencedArtifactIds : List String :=
  st.latestWorkspace.toList.map (·.artifactId) ++ st.byCrate.map (·.2.artifactId)

def listGraphArtifacts : List (String × Nat) :=
  (sur.order st.artifacts.names).map fun id => (id, sur.modified id)

/-- Newest first; the sort is stable. -/
def newestFirst (artifacts : List (String × Nat)) : List (String × Nat) :=
  artifacts.mergeSort fun a b => decide (b.2 ≤ a.2)

def removeUnless (retainedIds : List String) (st : Store) (artifact : String × Nat) : Store :=
  if artifact.1 ∈ retainedIds then st
  else { st with
    artifacts := st.artifacts.remove artifact.1
    byHash := st.byHash.remove artifact.1 }

def pruneGraphArtifacts : Store :=
  if sur.retainLimit = 0 then st
  else
    let artifacts := newestFirst (listGraphArtifacts sur st)
    let retainedIds := referencedArtifactIds st ++ (artifacts.take sur.retainLimit).map (·.1)
    let st := artifacts.foldl (removeUnless retainedIds) st
    { st with byHash := st.byHash.filter fun e => e.1 ∈ st.artifacts.names }

def updateGraphArtifactIndex (summary : GraphArtifactSummary) :
    Store :=
  pruneGraphArtifacts sur { st with
    latestWorkspace := some summary
    byCrate := st.byCrate.write summary.crateName summary
    byHash := st.byHash.write summary.artifactId summary }

structure CaptureCall where
  crateName : String
  ir : CapturedIr
  spanBundle : Option SymbolSpanBundle
  fileCountOverride : Option Nat
  sur : Surroundings

/-- The artifact is written when there is none under its hash. -/
def storeArtifact (id : String) (serialized : Bytes) : Store :=
  if id ∈ st.artifacts.names then st
  else { st with artifacts := st.artifacts.write id serialized }

def summaryOf (graphDir : String) (capture : CaptureCall) :
    GraphArtifactSummary where
  artifactId := digest capture.ir.serialized
  artifactPath := graphDir ++ "/" ++ digest capture.ir.serialized ++ ".json"
  crateName := capture.crateName
  nodeCount := capture.ir.nodes
  edgeCount := totalEdgeCount capture.ir
  fileCount := capture.fileCountOverride.getD (uniqueFileCount capture.spanBundle)
  callEdgeCount := capture.ir.callEdges
  moduleEdgeCount := capture.ir.moduleEdges
  cfgEdgeCount := capture.ir.cfgEdges

def writeGraphArtifact (graphDir : String) (st : Store) (capture : CaptureCall) :
    Store × GraphArtifactSummary :=
  let summary := summaryOf digest graphDir capture
  (updateGraphArtifactIndex capture.sur
    (storeArtifact st summary.artifactId capture.ir.serialized) summary, summary)

def storeMachine (graphDir : String) : Machine Store CaptureCall where
  step st capture := (writeGraphArtifact digest graphDir st capture).1

/-! ### What is asked for -/

structure Intact (st : Store) : Prop where
  latest : ∀ summary, st.latestWorkspace = some summary → summary.artifactId ∈ st.artifacts.names
  byCrate : ∀ e ∈ st.byCrate, e.2.artifactId ∈ st.artifacts.names
  byHash : ∀ e ∈ st.byHash, e.1 ∈ st.artifacts.names

/-- Every artifact lies under the hash of its text. -/
def Addressed : Prop :=
  ∀ e ∈ st.artifacts, digest e.2 = e.1

/-- Of the artifacts in `listed`, one is missing in `st` only if `limit` others that are not
    older are there. -/
def KeepsNewest (listed : List String) (modified : String → Nat) (limit : Nat) (st : Store) :
    Prop :=
  ∀ id ∈ listed, id ∉ st.artifacts.names →
    limit ≤ (st.artifacts.names.filter fun other => modified id ≤ modified other).length

/-! ### Files -/

namespace Files

variable {α : Type} {files : Files α} {name : String} {value : α}

theorem names_write : (files.write name value).names =
    if name ∈ files.names then files.names else files.names ++ [name] := by
  unfold write
  split
  · rw [names, names, List.map_map]
    apply List.map_congr_left
    intro e _
    by_cases he : e.1 = name
    · simp [he]
    · simp [he]
  · simp [names]

theorem mem_names_write {other : String} :
    other ∈ (files.write name value).names ↔ other ∈ files.names ∨ other = name := by
  rw [names_write]
  split
  · rename_i hmem
    constructor
    · exact Or.inl
    · rintro (h | rfl)
      · exact h
      · exact hmem
  · simp

theorem nodup_names_write (h : files.names.Nodup) : (files.write name value).names.Nodup := by
  rw [names_write]
  split
  · exact h
  · rename_i hmem
    exact List.nodup_append.mpr ⟨h, List.nodup_singleton _, by
      intro a ha b hb hab
      rw [List.mem_singleton.mp hb] at hab
      exact hmem (hab ▸ ha)⟩

theorem mem_write {e : String × α} (h : e ∈ files.write name value) :
    e ∈ files ∨ e = (name, value) := by
  unfold write at h
  split at h
  · obtain ⟨d, hd, rfl⟩ := List.mem_map.mp h
    split
    · exact .inr rfl
    · exact .inl hd
  · simpa using h

theorem names_filter (p : String → Bool) :
    names (files.filter fun e => p e.1) = files.names.filter p := by
  rw [names, names, List.filter_map]
  rfl

end Files

/-! ### Pruning -/

section Pruning

variable {sur : Surroundings} {st : Store} {retainedIds : List String}

theorem foldl_removeUnless (artifacts : List (String × Nat)) :
    artifacts.foldl (removeUnless retainedIds) st = { st with
      artifacts := st.artifacts.filter fun e =>
        e.1 ∈ retainedIds ∨ e.1 ∉ artifacts.map (·.1)
      byHash := st.byHash.filter fun e => e.1 ∈ retainedIds ∨ e.1 ∉ artifacts.map (·.1) } := by
  induction artifacts generalizing st with
  | nil => simp
  | cons a artifacts ih =>
    rw [List.foldl_cons, ih]
    have hfilter : ∀ {α : Type} (files : Files α), a.1 ∉ retainedIds →
        (files.remove a.1).filter (fun e => e.1 ∈ retainedIds ∨ e.1 ∉ artifacts.map (·.1)) =
          files.filter fun e => e.1 ∈ retainedIds ∨ e.1 ∉ (a :: artifacts).map (·.1) := by
      intro α files ha
      rw [Files.remove, List.filter_filter]
      apply List.filter_congr
      intro e _
      have hmem : e.1 ∈ (a :: artifacts).map (·.1) ↔ e.1 = a.1 ∨ e.1 ∈ artifacts.map (·.1) :=
        List.mem_cons
      by_cases he : e.1 = a.1
      · simp [he, ha]
      · simp only [hmem, he, false_or, ne_eq, not_false_eq_true, decide_true, Bool.and_true]
    by_cases ha : a.1 ∈ retainedIds
    · have hsame : ∀ {α : Type} (files : Files α),
          files.filter (fun e => e.1 ∈ retainedIds ∨ e.1 ∉ artifacts.map (·.1)) =
            files.filter fun e => e.1 ∈ retainedIds ∨ e.1 ∉ (a :: artifacts).map (·.1) := by
        intro α files
        apply List.filter_congr
        intro e _
        have hmem : e.1 ∈ (a :: artifacts).map (·.1) ↔ e.1 = a.1 ∨ e.1 ∈ artifacts.map (·.1) :=
          List.mem_cons
        by_cases he : e.1 = a.1
        · simp [he, ha]
        · simp only [hmem, he, false_or]
      rw [removeUnless, if_pos ha, hsame, hsame]
    · rw [removeUnless, if_neg ha]
      dsimp only
      rw [hfilter _ ha, hfilter _ ha]

/-- The ids that pruning keeps. -/
def retained (sur : Surroundings) (st : Store) : List String :=
  referencedArtifactIds st ++
    ((newestFirst (listGraphArtifacts sur st)).take sur.retainLimit).map (·.1)

theorem newestFirst_perm : (newestFirst (listGraphArtifacts sur st)).Perm
    (listGraphArtifacts sur st) :=
  List.mergeSort_perm _ _

theorem names_newestFirst :
    ((newestFirst (listGraphArtifacts sur st)).map (·.1)).Perm st.artifacts.names := by
  have hlisted : (listGraphArtifacts sur st).map (·.1) = sur.order st.artifacts.names := by
    rw [listGraphArtifacts, List.map_map]
    exact List.map_id _
  have hperm := (@newestFirst_perm sur st).map (·.1)
  rw [hlisted] at hperm
  exact hperm.trans (sur.order_perm _)

/-- Every artifact is listed, so those that are not kept go. -/
theorem pruneGraphArtifacts_eq (hlimit : sur.retainLimit ≠ 0) :
    pruneGraphArtifacts sur st = { st with
      artifacts := st.artifacts.filter fun e => e.1 ∈ retained sur st
      byHash := (st.byHash.filter fun e => e.1 ∈ retained sur st ∨ e.1 ∉ st.artifacts.names).filter
        fun e => e.1 ∈ Files.names (st.artifacts.filter fun e => e.1 ∈ retained sur st) } := by
  have hmem : ∀ id, id ∈ (newestFirst (listGraphArtifacts sur st)).map (·.1) ↔
      id ∈ st.artifacts.names := fun id => names_newestFirst.mem_iff
  have hartifacts : (st.artifacts.filter fun e => e.1 ∈ retained sur st ∨
      e.1 ∉ (newestFirst (listGraphArtifacts sur st)).map (·.1)) =
        st.artifacts.filter fun e => e.1 ∈ retained sur st := by
    apply List.filter_congr
    intro e he
    have hin : e.1 ∈ st.artifacts.names := List.mem_map_of_mem he
    simp only [hmem, hin, not_true, or_false]
  rw [pruneGraphArtifacts, if_neg hlimit]
  dsimp only
  rw [foldl_removeUnless]
  dsimp only
  rw [← retained, hartifacts]
  simp only [hmem]

theorem mem_retained_of_referenced {id : String} (h : id ∈ referencedArtifactIds st) :
    id ∈ retained sur st :=
  List.mem_append_left _ h

/-- Pruning leaves what is referred to, and no entry for a hash whose artifact is gone. -/
theorem Intact.prune (h : Intact st) : Intact (pruneGraphArtifacts sur st) := by
  by_cases hlimit : sur.retainLimit = 0
  · rw [pruneGraphArtifacts, if_pos hlimit]
    exact h
  · rw [pruneGraphArtifacts_eq hlimit]
    have hkept : ∀ id, id ∈ referencedArtifactIds st → id ∈ st.artifacts.names →
        id ∈ Files.names (st.artifacts.filter fun e => e.1 ∈ retained sur st) := by
      intro id href hid
      have hnames := @Files.names_filter _ st.artifacts fun id => decide (id ∈ retained sur st)
      rw [hnames, List.mem_filter, decide_eq_true_eq]
      exact ⟨hid, mem_retained_of_referenced href⟩
    refine ⟨?_, ?_, ?_⟩
    · intro summary hsummary
      apply hkept _ _ (h.latest summary hsummary)
      exact List.mem_append_left _ (List.mem_map_of_mem (Option.mem_toList.mpr hsummary))
    · intro e he
      apply hkept _ _ (h.byCrate e he)
      exact List.mem_append_right _ (List.mem_map.mpr ⟨e, he, rfl⟩)
    · intro e he
      rw [List.mem_filter, decide_eq_true_eq] at he
      exact he.2

/-- What is removed stands behind the `limit` newest. -/
theorem keepsNewest_prune (hnodup : st.artifacts.names.Nodup) (hlimit : sur.retainLimit ≠ 0) :
    KeepsNewest st.artifacts.names sur.modified sur.retainLimit (pruneGraphArtifacts sur st) := by
  intro id hid hgone
  rw [pruneGraphArtifacts_eq hlimit] at hgone ⊢
  have hnames := @Files.names_filter _ st.artifacts fun id => decide (id ∈ retained sur st)
  rw [hnames] at hgone ⊢
  have hnot : id ∉ retained sur st := by
    intro hretained
    exact hgone (List.mem_filter.mpr ⟨hid, by simpa using hretained⟩)
  set sorted := newestFirst (listGraphArtifacts sur st) with hsorted
  have hdates : ∀ a ∈ sorted, a.2 = sur.modified a.1 := by
    intro a ha
    obtain ⟨n, -, rfl⟩ := List.mem_map.mp (newestFirst_perm.mem_iff.mp ha)
    rfl
  have hpairwise : sorted.Pairwise fun a b => b.2 ≤ a.2 := by
    have hle := @List.pairwise_mergeSort _ (fun a b => decide (b.2 ≤ a.2))
      (fun a b c hab hbc => by simp at *; omega) (fun a b => by simp; omega)
      (listGraphArtifacts sur st)
    exact hle.imp fun hab => by simpa using hab
  -- the removed artifact is in the rest of the list
  obtain ⟨a, ha, rfl⟩ := List.mem_map.mp (names_newestFirst.mem_iff.mpr hid)
  have hrest : a ∈ sorted.drop sur.retainLimit := by
    rw [← hsorted, ← List.take_append_drop sur.retainLimit sorted] at ha
    rcases List.mem_append.mp ha with ha | ha
    · exact absurd (List.mem_append_right _ (List.mem_map_of_mem ha)) hnot
    · exact ha
  have hlong : (sorted.take sur.retainLimit).length = sur.retainLimit := by
    rw [List.length_take]
    have hpos := List.length_pos_of_mem hrest
    rw [List.length_drop] at hpos
    omega
  have hnewer : ∀ b ∈ sorted.take sur.retainLimit, sur.modified a.1 ≤ sur.modified b.1 := by
    intro b hb
    rw [← List.take_append_drop sur.retainLimit sorted, List.pairwise_append] at hpairwise
    have hle := hpairwise.2.2 b hb a hrest
    rw [hdates a (List.mem_of_mem_drop hrest), hdates b (List.mem_of_mem_take hb)] at hle
    exact hle
  have hdistinct : ((sorted.take sur.retainLimit).map (·.1)).Nodup := by
    have hall : (sorted.map (·.1)).Nodup := names_newestFirst.nodup_iff.mpr hnodup
    exact hall.sublist ((List.take_sublist _ _).map _)
  have hsub : (sorted.take sur.retainLimit).map (·.1) ⊆
      (st.artifacts.names.filter fun id => decide (id ∈ retained sur st)).filter
        fun other => sur.modified a.1 ≤ sur.modified other := by
    intro n hn
    obtain ⟨b, hb, rfl⟩ := List.mem_map.mp hn
    rw [List.mem_filter, List.mem_filter, decide_eq_true_eq, decide_eq_true_eq]
    refine ⟨⟨?_, List.mem_append_right _ hn⟩, hnewer b hb⟩
    exact names_newestFirst.mem_iff.mp (List.mem_map_of_mem (List.mem_of_mem_take hb))
  have hcount := (hdistinct.subperm hsub).length_le
  rw [List.length_map, hlong] at hcount
  exact hcount

end Pruning

/-! ### Runs -/

/-- The store when the artifact of a capture is written and the indexes name it. -/
def captured (digest : Bytes → String) (graphDir : String) (st : Store) (capture : CaptureCall) :
    Store :=
  let summary := summaryOf digest graphDir capture
  let stored := storeArtifact st summary.artifactId capture.ir.serialized
  { stored with
    latestWorkspace := some summary
    byCrate := stored.byCrate.write summary.crateName summary
    byHash := stored.byHash.write summary.artifactId summary }

theorem step_eq (digest : Bytes → String) (graphDir : String) (st : Store) (capture : CaptureCall) :
    (storeMachine digest graphDir).step st capture =
      pruneGraphArtifacts capture.sur (captured digest graphDir st capture) := rfl

structure Sound (digest : Bytes → String) (st : Store) : Prop where
  nodup : st.artifacts.names.Nodup
  addressed : Addressed digest st
  intact : Intact st

section Steps

variable {digest : Bytes → String} {graphDir : String} {st : Store}

theorem mem_names_storeArtifact {id other : String} {serialized : Bytes} :
    other ∈ (storeArtifact st id serialized).artifacts.names ↔
      other ∈ st.artifacts.names ∨ other = id := by
  unfold storeArtifact
  split
  · rename_i hmem
    constructor
    · exact Or.inl
    · rintro (h | rfl)
      · exact h
      · exact hmem
  · exact Files.mem_names_write

theorem Sound.captured (h : Sound digest st) (capture : CaptureCall) :
    Sound digest (captured digest graphDir st capture) := by
  have hold : ∀ id, id ∈ st.artifacts.names →
      id ∈ (ArtifactStore.captured digest graphDir st capture).artifacts.names :=
    fun id hid => mem_names_storeArtifact.mpr (.inl hid)
  have hnew : digest capture.ir.serialized ∈
      (ArtifactStore.captured digest graphDir st capture).artifacts.names :=
    mem_names_storeArtifact.mpr (.inr rfl)
  have hindexes : (storeArtifact st (digest capture.ir.serialized) capture.ir.serialized).byCrate =
      st.byCrate ∧
      (storeArtifact st (digest capture.ir.serialized) capture.ir.serialized).byHash =
        st.byHash := by
    unfold storeArtifact
    split
    · exact ⟨rfl, rfl⟩
    · exact ⟨rfl, rfl⟩
  refine ⟨?_, ?_, ?_, ?_, ?_⟩
  · show (storeArtifact st _ _).artifacts.names.Nodup
    unfold storeArtifact
    split
    · exact h.nodup
    · exact Files.nodup_names_write h.nodup
  · show Addressed digest (storeArtifact st _ _)
    unfold storeArtifact
    split
    · exact h.addressed
    · intro e he
      rcases Files.mem_write he with he | he
      · exact h.addressed e he
      · rw [he]
        rfl
  · intro summary hsummary
    rw [← Option.some.inj hsummary]
    exact hnew
  · intro e he
    rcases Files.mem_write he with he | rfl
    · apply hold
      exact h.intact.byCrate e (hindexes.1 ▸ he)
    · exact hnew
  · intro e he
    rcases Files.mem_write he with he | rfl
    · apply hold
      exact h.intact.byHash e (hindexes.2 ▸ he)
    · exact hnew

theorem Sound.prune (h : Sound digest st) (sur : Surroundings) :
    Sound digest (pruneGraphArtifacts sur st) := by
  by_cases hlimit : sur.retainLimit = 0
  · rw [pruneGraphArtifacts, if_pos hlimit]
    exact h
  · have hintact := @Intact.prune sur st h.intact
    rw [pruneGraphArtifacts_eq hlimit] at hintact ⊢
    refine ⟨h.nodup.sublist (List.filter_sublist.map _), ?_, hintact⟩
    intro e he
    exact h.addressed e (List.mem_of_mem_filter he)

theorem Sound.step (h : Sound digest st) (capture : CaptureCall) :
    Sound digest ((storeMachine digest graphDir).step st capture) :=
  (h.captured capture).prune capture.sur

theorem Sound.run (captures : List CaptureCall) :
    Sound digest ((storeMachine digest graphDir).run .empty captures) :=
  (storeMachine digest graphDir).run_invariant (fun _ capture h => h.step capture) captures
    ⟨List.nodup_nil, by simp [Addressed, Store.empty], by simp [Store.empty], by simp [Store.empty],
      by simp [Store.empty]⟩

end Steps

/-- After each call every reference has its artifact, every artifact is the one its name says,
    and with a limit the newest artifacts are there; without one nothing is removed. -/
theorem store_integrity (digest : Bytes → String) (graphDir : String) (before : List CaptureCall)
    (capture : CaptureCall) :
    Intact ((storeMachine digest graphDir).run .empty (before ++ [capture])) ∧
      Addressed digest ((storeMachine digest graphDir).run .empty (before ++ [capture])) ∧
      (0 < capture.sur.retainLimit →
        KeepsNewest
          (digest capture.ir.serialized ::
            ((storeMachine digest graphDir).run .empty before).artifacts.names)
          capture.sur.modified capture.sur.retainLimit
          ((storeMachine digest graphDir).run .empty (before ++ [capture]))) ∧
      (capture.sur.retainLimit = 0 →
        ∀ id ∈ digest capture.ir.serialized ::
            ((storeMachine digest graphDir).run .empty before).artifacts.names,
          id ∈ ((storeMachine digest graphDir).run .empty
            (before ++ [capture])).artifacts.names) := by
  have hcaptured : ∀ id ∈ digest capture.ir.serialized ::
        ((storeMachine digest graphDir).run .empty before).artifacts.names,
      id ∈ (captured digest graphDir ((storeMachine digest graphDir).run .empty before)
        capture).artifacts.names := by
    intro id hid
    rcases List.mem_cons.mp hid with rfl | hid
    · exact mem_names_storeArtifact.mpr (.inr rfl)
    · exact mem_names_storeArtifact.mpr (.inl hid)
  rw [Machine.run_snoc, step_eq]
  have hbefore : Sound digest ((storeMachine digest graphDir).run .empty before) := Sound.run before
  have hsound : Sound digest
      (captured digest graphDir ((storeMachine digest graphDir).run .empty before) capture) :=
    hbefore.captured capture
  refine ⟨(hsound.prune _).intact, (hsound.prune _).addressed, ?_, ?_⟩
  · intro hlimit
    have hkeeps : KeepsNewest _ capture.sur.modified capture.sur.retainLimit
        (pruneGraphArtifacts capture.sur _) :=
      keepsNewest_prune hsound.nodup (Nat.pos_iff_ne_zero.mp hlimit)
    intro id hid hgone
    exact hkeeps id (hcaptured id hid) hgone
  · intro hlimit id hid
    rw [pruneGraphArtifacts, if_pos hlimit]
    exact hcaptured id hid

end Canon.Capture.ArtifactStore
