import Canon.Lib.Words
import Canon.Loop.Executor

/-! # Tasks of a decomposition

    The answer to a decomposition is prose around a JSON array.  The array is cut out
    between brackets that are looked for independently, every entry gets an
    identifier, and then the entries that are no tasks are dropped.

    * `parseDecomposeTasks`: the tasks of an answer; nothing when the cut stops the
      program,
    * `executeComplete_eq`: what the stage makes of them,
    * `decompose_wellFormed_iff`: when identifiers and dependencies fit together.
-/

namespace Canon.Loop

open Decompose

/-! ### Model -/

def parseDecomposeTasks (H : Host) (drawn : Nat) (response : Text) : Option (List ParsedTask) :=
  (responseEntries H response).map fun entries =>
    let ids := (List.range entries.length).map fun k => H.uuid (drawn + k)
    entries.zipIdx.filterMap fun (item, i) => parseTask ids i item

def answerOf (H : Host) (c : CapabilityCompleted) : Text :=
  match c.result with
  | .llm _ _ response => H.jsonToString response
  | _ => []

/-- The stage stops with the cut, and otherwise reports the tasks. -/
theorem executeComplete_eq (H : Host) (c : CapabilityCompleted) (ctx : LoopContext)
    (hid : ctx.pendingDecomposeRequestId = some c.requestId) :
    (executeComplete H c ctx).outcome =
      match parseDecomposeTasks H ctx.drawn (answerOf H c) with
      | none => .panic
      | some tasks =>
        .ok (if tasks.isEmpty then .noop else .emitMany (tasks.flatMap taskEvents)) := by
  rw [executeComplete, if_neg (fun h => h hid), parseDecomposeTasks]
  unfold answerOf
  dsimp only
  cases responseEntries H _ with
  | none => rfl
  | some entries =>
    dsimp only [Option.map_some]
    split
    · rfl
    · rfl

/-! ### Entries -/

/-- An entry with the two texts a task needs. -/
def isTask (item : Json) : Bool :=
  ((item.get "agent_id").bind Json.asText).isSome &&
    ((item.get "task_prompt").bind Json.asText).isSome

/-- What an entry says it depends on. -/
def depsOf (item : Json) : List Json := ((item.get "deps").bind Json.asArray).getD []

section Entries

variable (H : Host) (drawn : Nat) (entries : List Json)

/-- The identifiers of all entries. -/
def entryIds : List Text := (List.range entries.length).map fun k => H.uuid (drawn + k)

def tasksOf : List ParsedTask :=
  entries.zipIdx.filterMap fun (item, i) => parseTask (entryIds H drawn entries) i item

variable {H drawn entries} {i : Nat} {item : Json}

theorem entryIds_getElem? (hitem : entries[i]? = some item) :
    (entryIds H drawn entries)[i]? = some (H.uuid (drawn + i)) := by
  have hlt : i < entries.length := (List.getElem?_eq_some_iff.mp hitem).1
  rw [entryIds, List.getElem?_map, List.getElem?_range hlt]
  rfl

theorem parseTask_isSome (ids : List Text) : (parseTask ids i item).isSome = isTask item := by
  rw [parseTask, isTask]
  match (item.get "agent_id").bind Json.asText with
  | none => rfl
  | some agentId =>
    rw [Option.bind_some, Option.isSome_map]
    rfl

theorem parseTask_id {ids : List Text} {task : ParsedTask} (h : parseTask ids i item = some task) :
    task.dispatchId = ids.getD i [] := by
  rw [parseTask] at h
  obtain ⟨_, _, hprompt⟩ := Option.bind_eq_some_iff.mp h
  obtain ⟨_, _, htask⟩ := Option.map_eq_some_iff.mp hprompt
  rw [← htask]

theorem mem_parseTask_deps {task : ParsedTask}
    (h : parseTask (entryIds H drawn entries) i item = some task) {d : Text} :
    d ∈ task.deps ↔ ∃ dep ∈ depsOf item, ∃ idx other, dep.asU64 = some idx ∧ idx ≠ i ∧
      entries[idx]? = some other ∧ d = H.uuid (drawn + idx) := by
  rw [parseTask] at h
  obtain ⟨_, _, hprompt⟩ := Option.bind_eq_some_iff.mp h
  obtain ⟨_, _, htask⟩ := Option.map_eq_some_iff.mp hprompt
  rw [← htask]
  have hlen : (entryIds H drawn entries).length = entries.length := by simp [entryIds]
  constructor
  · intro hd
    obtain ⟨dep, hdep, hbind⟩ := List.mem_filterMap.mp hd
    obtain ⟨idx, hidx, hget⟩ := Option.bind_eq_some_iff.mp hbind
    by_cases hguard : (decide (idx < (entryIds H drawn entries).length) && decide (idx ≠ i)) = true
    · rw [if_pos hguard] at hget
      rw [Bool.and_eq_true, decide_eq_true_eq, decide_eq_true_eq, hlen] at hguard
      have hother := List.getElem?_eq_getElem hguard.1
      rw [entryIds_getElem? hother] at hget
      exact ⟨dep, hdep, idx, _, hidx, hguard.2, hother, (Option.some.inj hget).symm⟩
    · rw [if_neg hguard] at hget
      cases hget
  · rintro ⟨dep, hdep, idx, other, hidx, hne, hother, hd⟩
    refine List.mem_filterMap.mpr ⟨dep, hdep, ?_⟩
    have hlt : idx < entries.length := (List.getElem?_eq_some_iff.mp hother).1
    have hguard :
      (decide (idx < (entryIds H drawn entries).length) && decide (idx ≠ i)) = true := by
      rw [hlen]
      simp [hlt, hne]
    rw [hidx, Option.bind_some, if_pos hguard, entryIds_getElem? hother, hd]

theorem mem_tasksOf {task : ParsedTask} :
    task ∈ tasksOf H drawn entries ↔ ∃ i item, entries[i]? = some item ∧
      parseTask (entryIds H drawn entries) i item = some task := by
  rw [tasksOf, List.mem_filterMap]
  constructor
  · rintro ⟨⟨item, i⟩, hmem, htask⟩
    exact ⟨i, item, List.mem_zipIdx_iff_getElem?.mp hmem, htask⟩
  · rintro ⟨i, item, hitem, htask⟩
    exact ⟨(item, i), List.mem_zipIdx_iff_getElem?.mpr hitem, htask⟩

/-- The identifiers that are given out are those of the tasks. -/
theorem ids_tasksOf : (tasksOf H drawn entries).map ParsedTask.dispatchId =
    (entries.zipIdx.filter fun entry => isTask entry.1).map fun entry =>
      H.uuid (drawn + entry.2) := by
  have hsub : ∀ entry ∈ entries.zipIdx, entries[entry.2]? = some entry.1 := by
    intro entry hentry
    exact List.mem_zipIdx_iff_getElem?.mp hentry
  rw [tasksOf]
  generalize entries.zipIdx = indexed at hsub
  induction indexed with
  | nil => rfl
  | cons entry rest ih =>
    have hrest := ih fun e he => hsub e (List.mem_cons_of_mem _ he)
    have hitem := hsub entry List.mem_cons_self
    match htask : parseTask (entryIds H drawn entries) entry.2 entry.1 with
    | none =>
      have hno : isTask entry.1 = false := by
        rw [← parseTask_isSome (entryIds H drawn entries) (i := entry.2), htask]
        rfl
      rw [List.filterMap_cons, List.filter_cons_of_neg (by simp [hno])]
      simp only [htask]
      exact hrest
    | some task =>
      have hyes : isTask entry.1 = true := by
        rw [← parseTask_isSome (entryIds H drawn entries) (i := entry.2), htask]
        rfl
      have hid : task.dispatchId = H.uuid (drawn + entry.2) := by
        rw [parseTask_id htask, List.getD_eq_getElem?_getD, entryIds_getElem? hitem]
        rfl
      rw [List.filterMap_cons, List.filter_cons_of_pos (by simp [hyes])]
      simp only [htask, List.map_cons, hid, hrest]

theorem mem_ids_tasksOf {idx : Nat} {other : Json} (hother : entries[idx]? = some other) :
    H.uuid (drawn + idx) ∈ (tasksOf H drawn entries).map ParsedTask.dispatchId ↔
      isTask other = true := by
  rw [ids_tasksOf, List.mem_map]
  constructor
  · rintro ⟨entry, hentry, hid⟩
    obtain ⟨hmem, htask⟩ := List.mem_filter.mp hentry
    have hsame : entry.2 = idx := by
      have := H.uuid_injective hid
      omega
    have hentry := List.mem_zipIdx_iff_getElem?.mp hmem
    rw [hsame, hother] at hentry
    rw [Option.some.inj hentry]
    exact htask
  · intro htask
    exact ⟨(other, idx), List.mem_filter.mpr ⟨List.mem_zipIdx_iff_getElem?.mpr hother, htask⟩, rfl⟩

theorem nodup_ids_tasksOf : ((tasksOf H drawn entries).map ParsedTask.dispatchId).Nodup := by
  rw [ids_tasksOf]
  have hindices : ((entries.zipIdx.filter fun entry => isTask entry.1).map Prod.snd).Nodup := by
    have hall : (entries.zipIdx.map Prod.snd).Nodup := by
      rw [List.zipIdx_map_snd]
      exact List.nodup_range'
    exact hall.sublist (List.filter_sublist.map _)
  have hmap := hindices.map (f := fun i => H.uuid (drawn + i)) fun i j h => by
    have := H.uuid_injective h
    omega
  rw [List.map_map] at hmap
  exact hmap

end Entries

/-! ### Well-formed tasks -/

/-- The parser comes back with tasks that have different identifiers and depend on
    each other only. -/
def WellFormedTasks (result : Option (List ParsedTask)) : Prop :=
  ∃ tasks, result = some tasks ∧ (tasks.map ParsedTask.dispatchId).Nodup ∧
    ∀ task ∈ tasks, ∀ d ∈ task.deps, d ∈ tasks.map ParsedTask.dispatchId

/-- From the first opening bracket to the last closing one; from the start or to the
    end where there is none. -/
def bracketed (text : Text) : Text :=
  (text.take (((Text.rfind? "]" text).map (· + 1)).getD text.length)).drop
    ((Text.find? "[" text).getD 0)

/-- A task names no entry that is none. -/
def TasksNameTasks (entries : List Json) : Prop :=
  ∀ i item, entries[i]? = some item → isTask item = true →
    ∀ dep ∈ depsOf item, ∀ idx other, dep.asU64 = some idx → idx ≠ i →
      entries[idx]? = some other → isTask other = true

theorem parseDecomposeTasks_eq (H : Host) (drawn : Nat) (response : Text) :
    (Text.Inverted '[' ']' (Text.trim response) ∧ parseDecomposeTasks H drawn response = none) ∨
      (¬ Text.Inverted '[' ']' (Text.trim response) ∧
        parseDecomposeTasks H drawn response = some (tasksOf H drawn
          (((H.jsonFromStr (bracketed (Text.trim response))).bind Json.asArray).getD []))) := by
  have hbounds := Text.inverted_iff (c := '[') (d := ']') (by decide) (Text.trim response)
  by_cases hinverted : Text.Inverted '[' ']' (Text.trim response)
  · refine .inl ⟨hinverted, ?_⟩
    have hgt := hbounds.mpr hinverted
    rw [parseDecomposeTasks, responseEntries]
    exact congrArg (Option.map _) (if_pos hgt)
  · refine .inr ⟨hinverted, ?_⟩
    have hle := fun h => hinverted (hbounds.mp h)
    rw [parseDecomposeTasks, responseEntries]
    exact congrArg (Option.map _) (if_neg hle)

/-- The tasks fit together exactly when the brackets stand in order and no task of the
    array depends on an entry that is dropped. -/
theorem decompose_wellFormed_iff (H : Host) (drawn : Nat) (response : Text) :
    WellFormedTasks (parseDecomposeTasks H drawn response) ↔
      ¬ Text.Inverted '[' ']' (Text.trim response) ∧
        ∀ entries, H.jsonFromStr (bracketed (Text.trim response)) = some (.arr entries) →
          TasksNameTasks entries := by
  match parseDecomposeTasks_eq H drawn response with
  | .inl ⟨hinverted, hresult⟩ =>
    rw [hresult]
    constructor
    · rintro ⟨tasks, htasks, _⟩
      cases htasks
    · intro h
      exact absurd hinverted h.1
  | .inr ⟨hordered, hresult⟩ =>
    rw [hresult]
    constructor
    · rintro ⟨tasks, htasks, hnodup, hdeps⟩
      refine ⟨hordered, ?_⟩
      intro entries hentries i item hitem htask dep hdep idx other hidx hne hother
      rw [hentries] at htasks
      cases htasks
      rw [← @mem_ids_tasksOf H drawn _ _ _ hother]
      have hparsed : (parseTask (entryIds H drawn entries) i item).isSome = true := by
        rw [parseTask_isSome, htask]
      obtain ⟨task, hparse⟩ := Option.isSome_iff_exists.mp hparsed
      apply hdeps task (mem_tasksOf.mpr ⟨i, item, hitem, hparse⟩)
      exact (mem_parseTask_deps hparse).mpr ⟨dep, hdep, idx, other, hidx, hne, hother, rfl⟩
    · rintro ⟨_, hnames⟩
      refine ⟨_, rfl, nodup_ids_tasksOf, ?_⟩
      intro task htask d hd
      obtain ⟨i, item, hitem, hparse⟩ := mem_tasksOf.mp htask
      obtain ⟨dep, hdep, idx, other, hidx, hne, hother, rfl⟩ := (mem_parseTask_deps hparse).mp hd
      rw [mem_ids_tasksOf hother]
      have hitemTask : isTask item = true := by
        rw [← parseTask_isSome (entryIds H drawn _) (i := i), hparse]
        rfl
      -- Without an array there are no entries.
      match hjson : H.jsonFromStr (bracketed (Text.trim response)) with
      | some (.arr entries) =>
        rw [hjson] at hitem hother
        exact hnames entries hjson i item hitem hitemTask dep hdep idx other hidx hne hother
      | none => rw [hjson] at hitem; cases hitem
      | some .null => rw [hjson] at hitem; cases hitem
      | some (.bool _) => rw [hjson] at hitem; cases hitem
      | some (.num _) => rw [hjson] at hitem; cases hitem
      | some (.str _) => rw [hjson] at hitem; cases hitem
      | some (.obj _) => rw [hjson] at hitem; cases hitem

/-- Prose with brackets in the wrong order stops the program, whatever the parser of
    the host reads. -/
theorem decompose_stops :
    (∀ H : Host, parseDecomposeTasks H 0 "a] first, then [b".toList = none) ∧
      ∀ H : Host, ¬ WellFormedTasks (parseDecomposeTasks H 0 "a] first, then [b".toList) := by
  have hstop : ∀ H : Host, parseDecomposeTasks H 0 "a] first, then [b".toList = none := by
    intro H
    rw [parseDecomposeTasks, responseEntries]
    exact congrArg (Option.map _) (if_pos (by decide +kernel))
  refine ⟨hstop, ?_⟩
  intro H
  rw [hstop H]
  rintro ⟨tasks, htasks, _⟩
  cases htasks

end Canon.Loop
