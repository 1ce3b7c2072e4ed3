import Mathlib.Data.List.Dedup
import Mathlib.Data.List.Perm.Basic
import Canon.Lib.Machine
import Canon.Loop.Context

/-! # Which tasks the dependency tracker releases

    A blocked task is stored under each of its dependencies.  While some of them
    are open, a completed one stores it again under each open one, so the last one
    finds it more than once.  The tracker releases every task once and on time
    exactly when every task has a single dependency.

    The argument counts, for one task at a time, how often it is stored.
-/

namespace Canon.Loop

namespace DependencyTracker

def addAll (t : DependencyTracker) (tasks : List ScheduledTask) : DependencyTracker :=
  tasks.foldl add t

/-- What the completions return, one after the other. -/
def releases (t : DependencyTracker) : List Text → List (List ScheduledTask)
  | [] => []
  | dep :: order => (t.complete dep).2 :: releases (t.complete dep).1 order

/-- The tasks stored under a dependency. -/
def stored (t : DependencyTracker) (dep : Text) : List ScheduledTask := (t.unblocks dep).getD []

end DependencyTracker

/-- The dependency of a task that is completed last. -/
def lastDependency (order : List Text) (task : ScheduledTask) : Option Text :=
  (order.filter (· ∈ task.plan.dependsOn)).getLast?

/-- Every task is returned once in total, by the completion of its last dependency. -/
def ReleasedOnceOnTime (tasks : List ScheduledTask) (order : List Text) : Prop :=
  let returned := (DependencyTracker.empty.addAll tasks).releases order
  returned.flatten.Perm tasks ∧
    List.Forall₂ List.Perm returned
      (order.map fun dep => tasks.filter (lastDependency order · = some dep))

/-! ### How often a task is stored -/

namespace DependencyTracker

open Classical

variable {a : Text} {v : ScheduledTask}

theorem foldl_unblock (deps : List Text) (unblocks : FMap Text (List ScheduledTask))
    (task : ScheduledTask) (d : Text) :
    ((deps.foldl (unblock · task) unblocks) d).getD [] =
      (unblocks d).getD [] ++ List.replicate (deps.count d) task := by
  induction deps generalizing unblocks with
  | nil => simp
  | cons dep deps ih =>
    rw [List.foldl_cons, ih]
    by_cases hd : d = dep
    · subst hd
      rw [unblock, FMap.insert_self, Option.getD_some, List.count_cons_self,
        List.replicate_succ, List.append_assoc, List.singleton_append]
    · rw [unblock, FMap.insert_of_ne _ _ hd, List.count_cons_of_ne (Ne.symm hd)]

theorem stored_add (t : DependencyTracker) (task : ScheduledTask) (d : Text) :
    (t.add task).stored d =
      t.stored d ++ List.replicate (task.plan.dependsOn.count d) task := by
  unfold add
  by_cases hdeps : task.plan.dependsOn = []
  · simp [hdeps]
  · simp only [hdeps, if_false]
    exact foldl_unblock _ _ _ _

theorem count_replicate_task (v x : ScheduledTask) (n : Nat) :
    (List.replicate n x).count v = if x = v then n else 0 := by
  rw [List.count_replicate]
  by_cases h : x = v
  · simp [h]
  · simp [h]

theorem count_stored_addAll (tasks : List ScheduledTask) (t : DependencyTracker)
    (v : ScheduledTask) (d : Text) :
    ((t.addAll tasks).stored d).count v =
      (t.stored d).count v + tasks.count v * v.plan.dependsOn.count d := by
  induction tasks generalizing t with
  | nil => simp [addAll]
  | cons x tasks ih =>
    show (((t.add x).addAll tasks).stored d).count v = _
    rw [ih, stored_add, List.count_append, count_replicate_task]
    by_cases hx : x = v
    · subst hx
      rw [if_pos rfl, List.count_cons_self, Nat.add_mul]
      omega
    · rw [if_neg hx, List.count_cons_of_ne hx]
      omega

theorem waiting_addAll_of_notMem {tasks : List ScheduledTask}
    (h : ∀ x ∈ tasks, x.plan.actionId ≠ some a) (t : DependencyTracker) :
    (t.addAll tasks).waiting a = t.waiting a := by
  induction tasks generalizing t with
  | nil => rfl
  | cons x tasks ih =>
    show ((t.add x).addAll tasks).waiting a = _
    rw [ih fun y hy => h y (by simp [hy])]
    have hx := h x (by simp)
    by_cases hdeps : x.plan.dependsOn = []
    · simp [add, hdeps]
    · cases hid : x.plan.actionId with
      | none => simp [add, hdeps, hid]
      | some actionId =>
        have ha : a ≠ actionId := fun ha => hx (by rw [hid, ha])
        simp [add, hdeps, hid, ha]

theorem waiting_addAll {tasks : List ScheduledTask} (hv : v ∈ tasks)
    (hid : v.plan.actionId = some a) (hdeps : v.plan.dependsOn ≠ [])
    (hids : (tasks.filterMap (·.plan.actionId)).Nodup) (t : DependencyTracker) :
    (t.addAll tasks).waiting a = some v.plan.dependsOn.dedup := by
  induction tasks generalizing t with
  | nil => simp at hv
  | cons x tasks ih =>
    show ((t.add x).addAll tasks).waiting a = _
    by_cases hlater : v ∈ tasks
    · refine ih hlater ?_ _
      exact hids.sublist ((List.sublist_cons_self x tasks).filterMap _)
    · obtain rfl : v = x := by simpa [hlater] using hv
      -- No later task has the same id.
      have hother : ∀ y ∈ tasks, y.plan.actionId ≠ some a := by
        intro y hy hya
        simp only [List.filterMap_cons, hid] at hids
        exact (List.nodup_cons.mp hids).1 (List.mem_filterMap.mpr ⟨y, hy, hya⟩)
      rw [waiting_addAll_of_notMem hother]
      simp [add, hdeps, hid]

/-! ### Settling one task after the other -/

/-- Another task is settled. -/
theorem settle_of_ne {v x : ScheduledTask} (hne : x ≠ v) (done : Text)
    (acc : DependencyTracker × List ScheduledTask) :
    (∀ d, ((settle done acc x).1.stored d).count v = (acc.1.stored d).count v) ∧
      (settle done acc x).2.count v = acc.2.count v := by
  obtain ⟨t, ready⟩ := acc
  have hready : (ready ++ [x]).count v = ready.count v := by
    rw [List.count_append, List.count_singleton, if_neg (by simpa using hne), Nat.add_zero]
  unfold settle
  dsimp only
  split
  · exact ⟨fun _ => rfl, hready⟩
  · split
    · exact ⟨fun _ => rfl, hready⟩
    · split
      · exact ⟨fun _ => rfl, hready⟩
      · refine ⟨?_, rfl⟩
        intro d
        show (((List.foldl _ t.unblocks _) d).getD []).count v = _
        rw [foldl_unblock, List.count_append, count_replicate_task, if_neg hne, Nat.add_zero]
        rfl

theorem settle_waiting_of_ne {x : ScheduledTask} (hid : x.plan.actionId ≠ some a) (done : Text)
    (acc : DependencyTracker × List ScheduledTask) :
    (settle done acc x).1.waiting a = acc.1.waiting a := by
  obtain ⟨t, ready⟩ := acc
  unfold settle
  dsimp only
  split
  · rfl
  · rename_i actionId hx
    have ha : a ≠ actionId := by
      intro ha
      exact hid (by rw [hx, ha])
    split
    · rfl
    · split
      · exact FMap.erase_of_ne _ ha
      · exact FMap.insert_of_ne _ _ ha

/-- A task without an id is returned whenever it is found. -/
theorem foldl_settle_unnamed (hid : v.plan.actionId = none) (done : Text)
    (found : List ScheduledTask) (acc : DependencyTracker × List ScheduledTask) :
    (∀ d, ((found.foldl (settle done) acc).1.stored d).count v = (acc.1.stored d).count v) ∧
      (found.foldl (settle done) acc).2.count v = acc.2.count v + found.count v := by
  induction found generalizing acc with
  | nil => simp
  | cons x found ih =>
    obtain ⟨hstored, hready⟩ := ih (settle done acc x)
    rw [List.foldl_cons]
    by_cases hx : x = v
    · subst hx
      have hstep : settle done acc x = (acc.1, acc.2 ++ [x]) := by simp [settle, hid]
      rw [hstep] at hstored hready ⊢
      refine ⟨hstored, ?_⟩
      rw [hready, List.count_append, List.count_singleton_self, List.count_cons_self]
      omega
    · obtain ⟨hs, hr⟩ := settle_of_ne hx done acc
      rw [List.count_cons_of_ne hx]
      constructor
      · intro d
        rw [hstored, hs]
      · rw [hready, hr]

/-- A task that waits for nothing else is returned whenever it is found. -/
theorem foldl_settle_last (hid : v.plan.actionId = some a) {done : Text}
    {found : List ScheduledTask} (hown : ∀ x ∈ found, x.plan.actionId = some a → x = v)
    (acc : DependencyTracker × List ScheduledTask)
    (hwait : ∀ wait, acc.1.waiting a = some wait → wait.filter (· ≠ done) = []) :
    (∀ d, ((found.foldl (settle done) acc).1.stored d).count v = (acc.1.stored d).count v) ∧
      (found.foldl (settle done) acc).2.count v = acc.2.count v + found.count v := by
  induction found generalizing acc with
  | nil => simp
  | cons x found ih =>
    have htail : ∀ y ∈ found, y.plan.actionId = some a → y = v := fun y hy => hown y (by simp [hy])
    rw [List.foldl_cons]
    by_cases hx : x = v
    · subst hx
      -- The first copy clears the entry, every copy is returned.
      have hstep : (settle done acc x).2 = acc.2 ++ [x] ∧
          (settle done acc x).1.unblocks = acc.1.unblocks ∧
          ∀ wait, (settle done acc x).1.waiting a = some wait →
            wait.filter (· ≠ done) = [] := by
        unfold settle
        simp only [hid]
        split
        · exact ⟨rfl, rfl, hwait⟩
        · rename_i wait hsome
          rw [if_pos (hwait wait hsome)]
          refine ⟨rfl, rfl, ?_⟩
          intro wait' hwait'
          simp at hwait'
      obtain ⟨hstored, hready⟩ := ih htail (settle done acc x) hstep.2.2
      constructor
      · intro d
        rw [hstored, stored, hstep.2.1]
        rfl
      · rw [hready, hstep.1, List.count_append, List.count_singleton_self, List.count_cons_self]
        omega
    · have hxid : x.plan.actionId ≠ some a := fun h => hx (hown x (by simp) h)
      obtain ⟨hs, hr⟩ := settle_of_ne hx done acc
      obtain ⟨hstored, hready⟩ := ih htail (settle done acc x) (by
        rw [settle_waiting_of_ne hxid]
        exact hwait)
      rw [List.count_cons_of_ne hx]
      constructor
      · intro d
        rw [hstored, hs]
      · rw [hready, hr]

/-- A task that still waits is stored again, once for each time it is found, under
    everything it waits for. -/
theorem foldl_settle_waits (hid : v.plan.actionId = some a) {done : Text}
    {found : List ScheduledTask} (hown : ∀ x ∈ found, x.plan.actionId = some a → x = v)
    (acc : DependencyTracker × List ScheduledTask) {wait left : List Text}
    (hwait : acc.1.waiting a = some wait) (hleft : wait.filter (· ≠ done) = left) (hne : left ≠ [])
    :
    (∀ d, ((found.foldl (settle done) acc).1.stored d).count v =
        (acc.1.stored d).count v + found.count v * left.count d) ∧
      (found.foldl (settle done) acc).2.count v = acc.2.count v ∧
      (found.foldl (settle done) acc).1.waiting a = some (if v ∈ found then left else wait) := by
  induction found generalizing acc wait with
  | nil => simp [hwait]
  | cons x found ih =>
    have htail : ∀ y ∈ found, y.plan.actionId = some a → y = v := fun y hy => hown y (by simp [hy])
    rw [List.foldl_cons]
    by_cases hx : x = v
    · subst hx
      have hstep : settle done acc x =
          ({ waiting := acc.1.waiting.insert a left
             unblocks := left.foldl (unblock · x) acc.1.unblocks }, acc.2) := by
        unfold settle
        simp only [hid, hwait, hleft]
        rw [if_neg hne]
      have hkept : left.filter (· ≠ done) = left := by
        rw [← hleft, List.filter_filter]
        simp
      rw [hstep]
      obtain ⟨hstored, hready, hafter⟩ := ih htail
        ({ waiting := acc.1.waiting.insert a left
           unblocks := left.foldl (unblock · x) acc.1.unblocks }, acc.2)
        (FMap.insert_self _ _ _) hkept
      refine ⟨?_, hready, ?_⟩
      · intro d
        rw [hstored, List.count_cons_self, Nat.add_mul]
        have hagain := foldl_unblock left acc.1.unblocks x d
        rw [stored, hagain, List.count_append, List.count_replicate_self]
        show (acc.1.stored d).count x + _ + _ = _
        omega
      · rw [hafter]
        simp
    · have hxid : x.plan.actionId ≠ some a := fun h => hx (hown x (by simp) h)
      obtain ⟨hs, hr⟩ := settle_of_ne hx done acc
      obtain ⟨hstored, hready, hafter⟩ := ih htail (settle done acc x)
        ((settle_waiting_of_ne hxid done acc).trans hwait) hleft
      rw [List.count_cons_of_ne hx]
      refine ⟨?_, ?_, ?_⟩
      · intro d
        rw [hstored, hs]
      · rw [hready, hr]
      · rw [hafter]
        simp [Ne.symm hx]

theorem foldl_settle_of_notMem {found : List ScheduledTask} (hv : v ∉ found) (done : Text)
    (acc : DependencyTracker × List ScheduledTask) :
    (∀ d, ((found.foldl (settle done) acc).1.stored d).count v = (acc.1.stored d).count v) ∧
      (found.foldl (settle done) acc).2.count v = acc.2.count v := by
  induction found generalizing acc with
  | nil => simp
  | cons x found ih =>
    have hx : x ≠ v := fun h => hv (by simp [h])
    obtain ⟨hs, hr⟩ := settle_of_ne hx done acc
    obtain ⟨hstored, hready⟩ := ih (fun h => hv (by simp [h])) (settle done acc x)
    rw [List.foldl_cons]
    exact ⟨fun d => (hstored d).trans (hs d), hready.trans hr⟩

theorem complete_eq (t : DependencyTracker) (dep : Text) :
    t.complete dep =
      (t.stored dep).foldl (settle dep) ({ t with unblocks := t.unblocks.erase dep }, []) := by
  unfold complete stored
  cases h : t.unblocks dep with
  | some tasks => rfl
  | none =>
    have hsame : t.unblocks.erase dep = t.unblocks := by
      funext d
      by_cases hd : d = dep
      · rw [hd, FMap.erase_self, h]
      · exact FMap.erase_of_ne _ hd
    simp only [hsame]
    rfl

/-! ### What a completion returns -/

/-- The dependencies of a task that are open after some completions. -/
def remaining (v : ScheduledTask) (done : List Text) : List Text :=
  v.plan.dependsOn.dedup.filter (· ∉ done)

theorem remaining_snoc (v : ScheduledTask) (done : List Text) (e : Text) :
    (remaining v done).filter (· ≠ e) = remaining v (done ++ [e]) := by
  unfold remaining
  rw [List.filter_filter]
  congr 1
  funext d
  simp [and_comm]

theorem mem_remaining {done : List Text} {d : Text} :
    d ∈ remaining v done ↔ d ∈ v.plan.dependsOn ∧ d ∉ done := by
  simp [remaining]

theorem count_remaining {done : List Text} {d : Text} (h : d ∈ remaining v done) :
    (remaining v done).count d = 1 :=
  List.count_eq_one_of_mem ((List.nodup_dedup _).filter _) h

/-- How often each task is stored under the open dependencies. -/
structure Tracks (tasks : List ScheduledTask) (done : List Text) (t : DependencyTracker) :
    Prop where
  unknown : ∀ v ∉ tasks, ∀ d ∉ done, (t.stored d).count v = 0
  elsewhere : ∀ v ∈ tasks, ∀ d ∉ done, d ∉ v.plan.dependsOn → (t.stored d).count v = 0
  fresh : ∀ v ∈ tasks, ∀ d ∉ done,
    (v.plan.actionId = none ∨ ∀ e ∈ v.plan.dependsOn, e ∉ done) →
    (t.stored d).count v = tasks.count v * v.plan.dependsOn.count d
  again : ∀ v ∈ tasks, v.plan.actionId ≠ none → (∃ e ∈ v.plan.dependsOn, e ∈ done) →
    ∀ d ∈ v.plan.dependsOn, d ∉ done → 2 ≤ (t.stored d).count v
  waiting : ∀ v ∈ tasks, ∀ a, v.plan.actionId = some a → remaining v done ≠ [] →
    t.waiting a = some (remaining v done)

section Run

variable {tasks : List ScheduledTask} {done : List Text} {t : DependencyTracker}

theorem tracks_addAll (hdeps : ∀ v ∈ tasks, v.plan.dependsOn ≠ [])
    (hids : (tasks.filterMap (·.plan.actionId)).Nodup) :
    Tracks tasks [] (empty.addAll tasks) := by
  have hcount : ∀ v d, ((empty.addAll tasks).stored d).count v =
      tasks.count v * v.plan.dependsOn.count d := by
    intro v d
    rw [count_stored_addAll]
    simp [stored, empty]
  constructor
  · intro v hv d _
    rw [hcount, List.count_eq_zero_of_not_mem hv, Nat.zero_mul]
  · intro v _ d _ hd
    rw [hcount, List.count_eq_zero_of_not_mem hd, Nat.mul_zero]
  · intro v _ d _ _
    exact hcount v d
  · intro v _ _ hdone
    simp at hdone
  · intro v hv a hid _
    rw [waiting_addAll hv hid (hdeps v hv) hids]
    simp [remaining]

/-- Two tasks with one id are one task. -/
theorem eq_of_actionId (hids : (tasks.filterMap (·.plan.actionId)).Nodup)
    {v x : ScheduledTask} (hv : v ∈ tasks) (hx : x ∈ tasks) {a : Text}
    (hva : v.plan.actionId = some a) (hxa : x.plan.actionId = some a) : x = v := by
  induction tasks with
  | nil => simp at hv
  | cons y tasks ih =>
    cases hya : y.plan.actionId with
    | none =>
      simp only [List.filterMap_cons, hya] at hids
      have hne : ∀ z : ScheduledTask, z.plan.actionId = some a → z ≠ y := by
        intro z hz hzy
        rw [hzy, hya] at hz
        simp at hz
      exact ih hids (by simpa [hne v hva] using hv) (by simpa [hne x hxa] using hx)
    | some b =>
      simp only [List.filterMap_cons, hya, List.nodup_cons, List.mem_filterMap] at hids
      obtain ⟨hfirst, hrest⟩ := hids
      rcases List.mem_cons.mp hv with rfl | hvt
      · rcases List.mem_cons.mp hx with rfl | hxt
        · rfl
        · exact absurd ⟨x, hxt, by rw [hxa, ← hva, hya]⟩ hfirst
      · rcases List.mem_cons.mp hx with rfl | hxt
        · exact absurd ⟨v, hvt, by rw [hva, ← hxa, hya]⟩ hfirst
        · exact ih hrest hvt hxt

theorem count_eq_one (hids : (tasks.filterMap (·.plan.actionId)).Nodup) {v : ScheduledTask}
    (hv : v ∈ tasks) {a : Text} (hva : v.plan.actionId = some a) : tasks.count v = 1 := by
  have hle : tasks.count v ≤ (tasks.filterMap (·.plan.actionId)).count a := by
    rw [List.count_filterMap, List.count]
    apply List.countP_mono_left
    intro x _ hx
    rw [beq_iff_eq] at hx
    simp [hx, hva]
  have hone := List.nodup_iff_count_le_one.mp hids a
  have hpos : 0 < tasks.count v := List.count_pos_iff.mpr hv
  omega

namespace Tracks

variable {e : Text}
variable {v : ScheduledTask}

/-- A completion, seen from a task that is not of the list. -/
theorem complete_unknown (h : Tracks tasks done t) (he : e ∉ done) (hv : v ∉ tasks) :
    (∀ d, d ≠ e → ((t.complete e).1.stored d).count v = (t.stored d).count v) ∧
      (t.complete e).2.count v = 0 := by
  have hfound : v ∉ t.stored e := List.count_eq_zero.mp (h.unknown v hv e he)
  obtain ⟨hstored, hready⟩ := foldl_settle_of_notMem hfound e
    ({ t with unblocks := t.unblocks.erase e }, [])
  rw [complete_eq]
  refine ⟨?_, hready⟩
  intro d hd
  rw [hstored]
  simp [stored, FMap.erase_of_ne _ hd]

/-- A completion, seen from a task without an id. -/
theorem complete_unnamed (hid : v.plan.actionId = none) :
    (∀ d, d ≠ e → ((t.complete e).1.stored d).count v = (t.stored d).count v) ∧
      (t.complete e).2.count v = (t.stored e).count v := by
  obtain ⟨hstored, hready⟩ := foldl_settle_unnamed hid e (t.stored e)
    ({ t with unblocks := t.unblocks.erase e }, [])
  rw [complete_eq]
  refine ⟨?_, by simpa using hready⟩
  intro d hd
  rw [hstored]
  simp [stored, FMap.erase_of_ne _ hd]

theorem found_own (h : Tracks tasks done t) (hids : (tasks.filterMap (·.plan.actionId)).Nodup)
    (he : e ∉ done) (hv : v ∈ tasks) {a : Text} (hid : v.plan.actionId = some a) :
    ∀ x ∈ t.stored e, x.plan.actionId = some a → x = v := by
  intro x hx hxa
  have hxt : x ∈ tasks := by
    by_contra hno
    exact List.count_eq_zero.mp (h.unknown x hno e he) hx
  exact eq_of_actionId hids hv hxt hid hxa

/-- The completion of the last dependency, seen from a task with an id. -/
theorem complete_last (h : Tracks tasks done t) (hids : (tasks.filterMap (·.plan.actionId)).Nodup)
    (he : e ∉ done) (hv : v ∈ tasks) {a : Text} (hid : v.plan.actionId = some a)
    (hlast : remaining v (done ++ [e]) = []) :
    (∀ d, d ≠ e → ((t.complete e).1.stored d).count v = (t.stored d).count v) ∧
      (t.complete e).2.count v = (t.stored e).count v := by
  by_cases hfound : v ∈ t.stored e
  · have hdep : e ∈ v.plan.dependsOn := by
      by_contra hno
      exact List.count_eq_zero.mp (h.elsewhere v hv e he hno) hfound
    have hopen : remaining v done ≠ [] := List.ne_nil_of_mem (mem_remaining.mpr ⟨hdep, he⟩)
    obtain ⟨hstored, hready⟩ := foldl_settle_last hid (h.found_own hids he hv hid)
      ({ t with unblocks := t.unblocks.erase e }, []) (by
        intro wait hwait
        obtain rfl : remaining v done = wait :=
          Option.some.inj ((h.waiting v hv a hid hopen).symm.trans hwait)
        rw [remaining_snoc]
        exact hlast)
    rw [complete_eq]
    refine ⟨?_, by simpa using hready⟩
    intro d hd
    rw [hstored]
    simp [stored, FMap.erase_of_ne _ hd]
  · obtain ⟨hstored, hready⟩ := foldl_settle_of_notMem hfound e
      ({ t with unblocks := t.unblocks.erase e }, [])
    rw [complete_eq, List.count_eq_zero_of_not_mem hfound]
    refine ⟨?_, hready⟩
    intro d hd
    rw [hstored]
    simp [stored, FMap.erase_of_ne _ hd]

/-- Any other completion, seen from a task with an id. -/
theorem complete_waits (h : Tracks tasks done t) (hids : (tasks.filterMap (·.plan.actionId)).Nodup)
    (he : e ∉ done) (hv : v ∈ tasks) {a : Text} (hid : v.plan.actionId = some a)
    (hopen : remaining v (done ++ [e]) ≠ []) :
    (∀ d, d ≠ e → ((t.complete e).1.stored d).count v =
        (t.stored d).count v + (t.stored e).count v * (remaining v (done ++ [e])).count d) ∧
      (t.complete e).2.count v = 0 ∧
      (t.complete e).1.waiting a = some (remaining v (done ++ [e])) := by
  have hbefore : remaining v done ≠ [] := by
    intro hnil
    rw [← remaining_snoc, hnil] at hopen
    exact hopen rfl
  obtain ⟨hstored, hready, hwait⟩ := foldl_settle_waits hid (h.found_own hids he hv hid)
    ({ t with unblocks := t.unblocks.erase e }, []) (h.waiting v hv a hid hbefore)
    (remaining_snoc v done e) hopen
  rw [complete_eq]
  refine ⟨?_, hready, ?_⟩
  · intro d hd
    rw [hstored]
    simp [stored, FMap.erase_of_ne _ hd]
  · rw [hwait]
    split
    · rfl
    · rename_i hfound
      -- A dependency under which the task is not stored is none of its own.
      have hdep : e ∉ v.plan.dependsOn := by
        intro hdep
        have hpos : 0 < (t.stored e).count v := by
          by_cases hdone : ∃ d ∈ v.plan.dependsOn, d ∈ done
          · have htwo := h.again v hv (by simp [hid]) hdone e hdep he
            omega
          · rw [h.fresh v hv e he (.inr fun d hd hmem => hdone ⟨d, hd, hmem⟩)]
            exact Nat.mul_pos (List.count_pos_iff.mpr hv) (List.count_pos_iff.mpr hdep)
        exact hfound (List.count_pos_iff.mp hpos)
      rw [← remaining_snoc, List.filter_eq_self.mpr]
      intro d hd
      have hne : d ≠ e := fun hde => hdep (by rw [← hde]; exact (mem_remaining.mp hd).1)
      simpa using hne

theorem complete (h : Tracks tasks done t)
    (hids : (tasks.filterMap (·.plan.actionId)).Nodup) (he : e ∉ done) :
    Tracks tasks (done ++ [e]) (t.complete e).1 := by
  have hsplit : ∀ {d : Text}, d ∉ done ++ [e] → d ∉ done ∧ d ≠ e := by
    intro d hd
    simpa using hd
  -- A task's copies elsewhere stay, and grow while it waits for something else.
  have hgrows : ∀ v ∈ tasks, ∀ d, d ≠ e → ((t.complete e).1.stored d).count v =
      (t.stored d).count v + v.plan.actionId.elim 0 fun _ =>
        (t.stored e).count v * (remaining v (done ++ [e])).count d := by
    intro v hv d hd
    cases hid : v.plan.actionId with
    | none => exact (complete_unnamed hid).1 d hd
    | some a =>
      by_cases hopen : remaining v (done ++ [e]) = []
      · rw [(h.complete_last hids he hv hid hopen).1 d hd, hopen]
        simp
      · exact (h.complete_waits hids he hv hid hopen).1 d hd
  constructor
  · intro v hv d hd
    rw [(h.complete_unknown he hv).1 d (hsplit hd).2]
    exact h.unknown v hv d (hsplit hd).1
  · intro v hv d hd hdep
    have hzero : (remaining v (done ++ [e])).count d = 0 :=
      List.count_eq_zero_of_not_mem fun hmem => hdep (mem_remaining.mp hmem).1
    rw [hgrows v hv d (hsplit hd).2, h.elsewhere v hv d (hsplit hd).1 hdep, hzero]
    cases v.plan.actionId with
    | none => rfl
    | some a => rfl
  · intro v hv d hd hfresh
    have hbefore : v.plan.actionId = none ∨ ∀ f ∈ v.plan.dependsOn, f ∉ done :=
      hfresh.imp_right fun hall f hf hmem => hall f hf (by simp [hmem])
    rw [hgrows v hv d (hsplit hd).2, h.fresh v hv d (hsplit hd).1 hbefore]
    rcases hfresh with hid | hall
    · rw [hid]
      rfl
    · have hnone : (t.stored e).count v = 0 :=
        h.elsewhere v hv e he fun hmem => hall e hmem (by simp)
      rw [hnone]
      cases v.plan.actionId with
      | none => rfl
      | some a =>
        rw [Option.elim_some, Nat.zero_mul]
        rfl
  · intro v hv hid hdone d hdep hd
    rw [hgrows v hv d (hsplit hd).2]
    by_cases hbefore : ∃ f ∈ v.plan.dependsOn, f ∈ done
    · have htwo := h.again v hv hid hbefore d hdep (hsplit hd).1
      omega
    -- The first completion of one of its dependencies adds the second copy.
    · have hnot : ∀ f ∈ v.plan.dependsOn, f ∉ done := fun f hf hmem => hbefore ⟨f, hf, hmem⟩
      have hdep' : e ∈ v.plan.dependsOn := by
        obtain ⟨f, hf, hmem⟩ := hdone
        rcases List.mem_append.mp hmem with hmem | hmem
        · exact absurd hmem (hnot f hf)
        · rw [← List.mem_singleton.mp hmem]
          exact hf
      have hpos : ∀ f ∈ v.plan.dependsOn, f ∉ done → 0 < (t.stored f).count v := by
        intro f hf hfd
        rw [h.fresh v hv f hfd (.inr hnot)]
        exact Nat.mul_pos (List.count_pos_iff.mpr hv) (List.count_pos_iff.mpr hf)
      have hcopy := hpos d hdep (hsplit hd).1
      have hfound := hpos e hdep' he
      obtain ⟨a, ha⟩ := Option.ne_none_iff_exists'.mp hid
      rw [ha]
      show 2 ≤ _ + _ * (remaining v (done ++ [e])).count d
      rw [count_remaining (mem_remaining.mpr ⟨hdep, hd⟩)]
      omega
  · intro v hv a hid hopen
    exact (h.complete_waits hids he hv hid hopen).2.2

end Tracks

def completeAll (t : DependencyTracker) (order : List Text) : DependencyTracker :=
  order.foldl (fun t dep => (t.complete dep).1) t

/-- The invariant of a run: the tasks were added, then some dependencies completed. -/
theorem tracks_completeAll (hids : (tasks.filterMap (·.plan.actionId)).Nodup)
    (h : Tracks tasks done t) {order : List Text} (hnodup : (done ++ order).Nodup) :
    Tracks tasks (done ++ order) (t.completeAll order) := by
  induction order generalizing done t with
  | nil =>
    rw [List.append_nil]
    exact h
  | cons e order ih =>
    have he : e ∉ done := by
      intro hmem
      have hdisjoint := (List.nodup_append.mp hnodup).2.2 e hmem e (by simp)
      exact hdisjoint rfl
    have hassoc : done ++ e :: order = (done ++ [e]) ++ order := by simp
    rw [hassoc] at hnodup ⊢
    exact ih (h.complete hids he) hnodup

/-- What a completion returns, seen from one task. -/
theorem Tracks.count_returned (h : Tracks tasks done t)
    (hids : (tasks.filterMap (·.plan.actionId)).Nodup) {e : Text} (he : e ∉ done)
    {v : ScheduledTask} (hv : v ∈ tasks) :
    (t.complete e).2.count v =
      if v.plan.actionId = none ∨ remaining v (done ++ [e]) = [] then (t.stored e).count v
      else 0 := by
  cases hid : v.plan.actionId with
  | none =>
    rw [if_pos (.inl rfl)]
    exact (Tracks.complete_unnamed hid).2
  | some a =>
    by_cases hopen : remaining v (done ++ [e]) = []
    · rw [if_pos (.inr hopen)]
      exact (h.complete_last hids he hv hid hopen).2
    · rw [if_neg (by simp [hopen])]
      exact (h.complete_waits hids he hv hid hopen).2.1

end Run

/-! ### Once and on time -/

theorem forall₂_releases_iff {r : List ScheduledTask → List ScheduledTask → Prop}
    (t : DependencyTracker) (order : List Text) (f : Text → List ScheduledTask) :
    List.Forall₂ r (t.releases order) (order.map f) ↔
      ∀ before e after, order = before ++ e :: after →
        r ((t.completeAll before).complete e).2 (f e) := by
  induction order generalizing t with
  | nil => simp [releases]
  | cons dep order ih =>
    rw [releases, List.map_cons, List.forall₂_cons, ih]
    constructor
    · intro h before e after hsplit
      cases before with
      | nil =>
        obtain ⟨rfl, -⟩ := List.cons.inj hsplit
        exact h.1
      | cons b before =>
        obtain ⟨rfl, hrest⟩ := List.cons.inj hsplit
        exact h.2 before e after hrest
    · intro h
      refine ⟨h [] dep order rfl, ?_⟩
      intro before e after hsplit
      exact h (dep :: before) e after (by rw [hsplit, List.cons_append])

end DependencyTracker

section LastDependency

variable {before after : List Text} {e : Text}

theorem lastDependency_eq_iff (hnodup : (before ++ e :: after).Nodup) (v : ScheduledTask) :
    lastDependency (before ++ e :: after) v = some e ↔
      e ∈ v.plan.dependsOn ∧ ∀ d ∈ v.plan.dependsOn, d ∉ after := by
  have hafter : e ∉ after := (List.nodup_cons.mp (List.nodup_append.mp hnodup).2.1).1
  unfold lastDependency
  rw [List.filter_append]
  constructor
  · intro hlast
    have hmem := List.mem_of_getLast? hlast
    rw [← List.filter_append, List.mem_filter] at hmem
    have hdep : e ∈ v.plan.dependsOn := by simpa using hmem.2
    refine ⟨hdep, ?_⟩
    intro d hd hda
    -- Then the last dependency stands in `after`.
    rw [List.filter_cons_of_pos (by simpa using hdep)] at hlast
    have hne : after.filter (· ∈ v.plan.dependsOn) ≠ [] :=
      List.ne_nil_of_mem (List.mem_filter.mpr ⟨hda, by simpa using hd⟩)
    obtain ⟨front, last, hsplit⟩ := List.eq_nil_or_concat' (after.filter (· ∈ v.plan.dependsOn))
      |>.resolve_left hne
    rw [hsplit, ← List.cons_append, ← List.append_assoc, List.getLast?_append] at hlast
    obtain rfl : last = e := by simpa using hlast
    have hback : last ∈ after.filter (· ∈ v.plan.dependsOn) := by simp [hsplit]
    exact hafter (List.mem_filter.mp hback).1
  · rintro ⟨hdep, hall⟩
    have hnil : after.filter (· ∈ v.plan.dependsOn) = [] := by
      apply List.filter_eq_nil_iff.mpr
      intro d hd hdep
      exact hall d (by simpa using hdep) hd
    rw [List.filter_cons_of_pos (by simpa using hdep), hnil]
    simp

/-- The last dependency is the one that leaves nothing open. -/
theorem remaining_eq_nil_iff (hnodup : (before ++ e :: after).Nodup) {v : ScheduledTask}
    (hcover : ∀ d ∈ v.plan.dependsOn, d ∈ before ++ e :: after) :
    DependencyTracker.remaining v (before ++ [e]) = [] ↔ ∀ d ∈ v.plan.dependsOn, d ∉ after := by
  have hassoc : before ++ e :: after = (before ++ [e]) ++ after := by simp
  rw [hassoc] at hnodup hcover
  rw [List.eq_nil_iff_forall_not_mem]
  constructor
  · intro h d hd hda
    refine h d (DependencyTracker.mem_remaining.mpr ⟨hd, ?_⟩)
    intro hbefore
    exact (List.nodup_append.mp hnodup).2.2 d hbefore d hda rfl
  · intro h d hmem
    obtain ⟨hd, hnot⟩ := DependencyTracker.mem_remaining.mp hmem
    exact h d hd ((List.mem_append.mp (hcover d hd)).resolve_left hnot)

/-- Every task has a last dependency. -/
theorem exists_lastDependency {order : List Text} {v : ScheduledTask}
    (hdeps : v.plan.dependsOn ≠ []) (hcover : ∀ d ∈ v.plan.dependsOn, d ∈ order) :
    ∃ before e after, order = before ++ e :: after ∧ lastDependency order v = some e := by
  obtain ⟨d, hd⟩ := List.exists_mem_of_ne_nil _ hdeps
  have hmem : d ∈ order.filter (· ∈ v.plan.dependsOn) :=
    List.mem_filter.mpr ⟨hcover d hd, by simpa using hd⟩
  obtain ⟨e, he⟩ := Option.isSome_iff_exists.mp
    (List.getLast?_isSome.mpr (List.ne_nil_of_mem hmem))
  have heo : e ∈ order := (List.mem_filter.mp (List.mem_of_getLast? he)).1
  obtain ⟨before, after, hsplit⟩ := List.append_of_mem heo
  exact ⟨before, e, after, hsplit, he⟩

end LastDependency

/-- Sorting tasks by a key and taking them together again. -/
theorem flatMap_filter_perm {α κ : Type} [DecidableEq κ] (key : α → Option κ) {keys : List κ}
    (hnodup : keys.Nodup) {l : List α} (hkey : ∀ a ∈ l, ∃ k ∈ keys, key a = some k) :
    (keys.flatMap fun k => l.filter (key · = some k)).Perm l := by
  induction keys generalizing l with
  | nil =>
    have hnil : l = [] := by
      apply List.eq_nil_iff_forall_not_mem.mpr
      intro a ha
      obtain ⟨k, hk, -⟩ := hkey a ha
      simp at hk
    simp [hnil]
  | cons k keys ih =>
    obtain ⟨hk, hrest⟩ := List.nodup_cons.mp hnodup
    have hother : ∀ k' ∈ keys, l.filter (key · = some k') =
        (l.filter fun a => !decide (key a = some k)).filter (key · = some k') := by
      intro k' hk'
      rw [List.filter_filter]
      apply List.filter_congr
      intro a _
      by_cases ha : key a = some k'
      · have hne : k' ≠ k := fun h => hk (by rw [← h]; exact hk')
        simp [ha, hne]
      · simp [ha]
    have hih := ih hrest (l := l.filter fun a => !decide (key a = some k)) (by
      intro a ha
      obtain ⟨ha, hne⟩ := List.mem_filter.mp ha
      obtain ⟨k', hk', hkey'⟩ := hkey a ha
      rcases List.mem_cons.mp hk' with rfl | hk'
      · simp [hkey'] at hne
      · exact ⟨k', hk', hkey'⟩)
    rw [List.flatMap_cons, List.flatMap_congr hother]
    exact (hih.append_left _).trans (List.filter_append_perm _ l)

namespace DependencyTracker

open Classical

section OnceOnTime

variable {tasks : List ScheduledTask} {order : List Text}
  (hdeps : ∀ v ∈ tasks, v.plan.dependsOn ≠ [])
  (hids : (tasks.filterMap (·.plan.actionId)).Nodup) (hnodup : order.Nodup)
  (hcover : ∀ v ∈ tasks, ∀ d ∈ v.plan.dependsOn, d ∈ order)
include hdeps hids hnodup

/-- The tracker before one of the completions. -/
theorem tracks_before {before after : List Text} {e : Text}
    (hsplit : order = before ++ e :: after) :
    e ∉ before ∧ Tracks tasks before ((empty.addAll tasks).completeAll before) := by
  rw [hsplit] at hnodup
  have hparts := List.nodup_append.mp hnodup
  refine ⟨fun hmem => hparts.2.2 e hmem e (by simp) rfl, ?_⟩
  have hrun : Tracks tasks ([] ++ before) ((empty.addAll tasks).completeAll before) :=
    tracks_completeAll hids (tracks_addAll hdeps hids) (by simpa using hparts.1)
  simpa using hrun

include hcover

/-- With a single dependency each, every completion returns the right tasks. -/
theorem returned_of_single (hsingle : ∀ v ∈ tasks, v.plan.dependsOn.length = 1)
    {before after : List Text} {e : Text} (hsplit : order = before ++ e :: after) :
    (((empty.addAll tasks).completeAll before).complete e).2.Perm
      (tasks.filter (lastDependency order · = some e)) := by
  obtain ⟨he, htracks⟩ := tracks_before hdeps hids hnodup hsplit
  apply List.perm_iff_count.mpr
  intro v
  by_cases hv : v ∈ tasks
  · obtain ⟨d, hd⟩ := List.length_eq_one_iff.mp (hsingle v hv)
    have hlast := lastDependency_eq_iff (hsplit ▸ hnodup) v
    have hnil := remaining_eq_nil_iff (hsplit ▸ hnodup) (hsplit ▸ hcover v hv)
    rw [← hsplit, hd] at hlast
    rw [hd] at hnil
    rw [htracks.count_returned hids he hv]
    by_cases hde : d = e
    · subst hde
      have hafter : d ∉ after := by
        rw [hsplit] at hnodup
        exact (List.nodup_cons.mp (List.nodup_append.mp hnodup).2.1).1
      have hkey : lastDependency order v = some d := hlast.mpr (by simp [hafter])
      rw [if_pos (.inr (hnil.mpr (by simp [hafter]))), List.count_filter (by simpa using hkey)]
      rw [htracks.fresh v hv d he (.inr (by simpa [hd] using he)), hd]
      simp
    · have hkey : lastDependency order v ≠ some e := by
        intro hkey
        exact hde (List.mem_singleton.mp (hlast.mp hkey).1).symm
      have hnone : v ∉ tasks.filter (lastDependency order · = some e) := by
        intro hmem
        exact hkey (by simpa using (List.mem_filter.mp hmem).2)
      rw [List.count_eq_zero_of_not_mem hnone,
        htracks.elsewhere v hv e he (by simpa [hd] using Ne.symm hde)]
      split
      · rfl
      · rfl
  · have hnone : v ∉ tasks.filter (lastDependency order · = some e) :=
      fun hmem => hv (List.mem_filter.mp hmem).1
    rw [List.count_eq_zero_of_not_mem hnone]
    exact (htracks.complete_unknown he hv).2

/-- A task that is returned once and on time has a single dependency. -/
theorem single_of_returned
    (hontime : ∀ before e after, order = before ++ e :: after →
      (((empty.addAll tasks).completeAll before).complete e).2.Perm
        (tasks.filter (lastDependency order · = some e)))
    {v : ScheduledTask} (hv : v ∈ tasks) : v.plan.dependsOn.length = 1 := by
  obtain ⟨before, e, after, hsplit, hkey⟩ := exists_lastDependency (hdeps v hv) (hcover v hv)
  obtain ⟨he, htracks⟩ := tracks_before hdeps hids hnodup hsplit
  obtain ⟨hdep, hall⟩ := (lastDependency_eq_iff (hsplit ▸ hnodup) v).mp (hsplit ▸ hkey)
  -- The last completion returns the task as often as it is stored.
  have hcount := (hontime before e after hsplit).count_eq v
  have hnil := (remaining_eq_nil_iff (hsplit ▸ hnodup) (hsplit ▸ hcover v hv)).mpr hall
  rw [htracks.count_returned hids he hv, if_pos (.inr hnil),
    List.count_filter (by simpa using hkey)] at hcount
  have hpos : 0 < tasks.count v := List.count_pos_iff.mpr hv
  have hfresh : (v.plan.actionId = none ∨ ∀ d ∈ v.plan.dependsOn, d ∉ before) →
      v.plan.dependsOn.count e = 1 := by
    intro h
    rw [htracks.fresh v hv e he h] at hcount
    exact Nat.eq_of_mul_eq_mul_left hpos (by rw [hcount, Nat.mul_one])
  -- So no other dependency may have been completed before.
  have honly : ∀ d ∈ v.plan.dependsOn, d = e := by
    intro d hd
    by_contra hde
    have hbefore : d ∈ before := by
      have hmem := hcover v hv d hd
      rw [hsplit] at hmem
      rcases List.mem_append.mp hmem with hmem | hmem
      · exact hmem
      · rcases List.mem_cons.mp hmem with hmem | hmem
        · exact absurd hmem hde
        · exact absurd hmem (hall d hd)
    cases hid : v.plan.actionId with
    | none =>
      -- It would have been returned there already.
      obtain ⟨front, back, hfront⟩ := List.append_of_mem hbefore
      have hsplit' : order = front ++ d :: (back ++ e :: after) := by
        rw [hsplit, hfront]
        simp
      obtain ⟨hd', htracks'⟩ := tracks_before hdeps hids hnodup hsplit'
      have hearly := (hontime front d _ hsplit').count_eq v
      have hnot : v ∉ tasks.filter (lastDependency order · = some d) := by
        intro hmem
        have hlast : lastDependency order v = some d := by
          simpa using (List.mem_filter.mp hmem).2
        rw [hkey] at hlast
        exact hde (Option.some.inj hlast).symm
      rw [htracks'.count_returned hids hd' hv, if_pos (.inl hid),
        htracks'.fresh v hv d hd' (.inl hid), List.count_eq_zero_of_not_mem hnot] at hearly
      have hdpos : 0 < v.plan.dependsOn.count d := List.count_pos_iff.mpr hd
      have hprod := Nat.mul_pos hpos hdpos
      omega
    | some a =>
      have htwo := htracks.again v hv (by simp [hid]) ⟨d, hd, hbefore⟩ e hdep he
      have hone := count_eq_one hids hv hid
      omega
  have hall' : v.plan.dependsOn.count e = v.plan.dependsOn.length :=
    List.count_eq_length.mpr fun d hd => (honly d hd).symm
  rw [← hall']
  apply hfresh
  right
  intro d hd
  rw [honly d hd]
  exact he

end OnceOnTime

end DependencyTracker

/-- **Every task is released once and on time exactly when every task has a single
    dependency**, whatever the order in which the dependencies are completed. -/
theorem released_once_on_time_iff (tasks : List ScheduledTask) (order : List Text)
    (hdeps : ∀ v ∈ tasks, v.plan.dependsOn ≠ [])
    (hids : (tasks.filterMap (·.plan.actionId)).Nodup) (hnodup : order.Nodup)
    (hcover : ∀ v ∈ tasks, ∀ d ∈ v.plan.dependsOn, d ∈ order) :
    ReleasedOnceOnTime tasks order ↔ ∀ v ∈ tasks, v.plan.dependsOn.length = 1 := by
  unfold ReleasedOnceOnTime
  constructor
  · intro h v hv
    have hontime := (DependencyTracker.forall₂_releases_iff _ _ _).mp h.2
    exact DependencyTracker.single_of_returned hdeps hids hnodup hcover hontime hv
  · intro hsingle
    have hontime : List.Forall₂ List.Perm
        ((DependencyTracker.empty.addAll tasks).releases order)
        (order.map fun dep => tasks.filter (lastDependency order · = some dep)) := by
      apply (DependencyTracker.forall₂_releases_iff _ _ _).mpr
      intro before e after hsplit
      exact DependencyTracker.returned_of_single hdeps hids hnodup hcover hsingle hsplit
    refine ⟨?_, hontime⟩
    apply (List.Perm.flatten_congr hontime).trans
    apply flatMap_filter_perm (lastDependency order) hnodup
    intro v hv
    obtain ⟨before, e, after, hsplit, hkey⟩ := exists_lastDependency (hdeps v hv) (hcover v hv)
    exact ⟨e, by simp [hsplit], hkey⟩

/-- A task with two dependencies. -/
def twoDependencies : ScheduledTask where
  priority := .normal
  enqueuedAt := 0
  seq := 0
  plan := { (default : LoopPlanned) with actionId := some "build", dependsOn := ["fetch", "parse"] }

def oneDependency (id : Text) : ScheduledTask :=
  { twoDependencies with
    plan := { twoDependencies.plan with actionId := some id, dependsOn := ["fetch"] } }

/-- Two tasks wait for the same dependency. -/
theorem released_once_on_time_shared :
    ReleasedOnceOnTime [oneDependency "build", oneDependency "test"] ["parse", "fetch"] :=
  (released_once_on_time_iff [oneDependency "build", oneDependency "test"] ["parse", "fetch"]
    (by decide) (by decide) (by decide) (by decide)).mpr (by decide)

theorem two_dependencies_released_twice :
    ¬ ReleasedOnceOnTime [twoDependencies] ["fetch", "parse"] ∧
      (DependencyTracker.empty.addAll [twoDependencies]).releases ["fetch", "parse"] =
        [[], [twoDependencies, twoDependencies]] := by
  have hreleases : (DependencyTracker.empty.addAll [twoDependencies]).releases
      ["fetch", "parse"] = [[], [twoDependencies, twoDependencies]] := rfl
  refine ⟨?_, hreleases⟩
  rintro ⟨htotal, -⟩
  rw [hreleases] at htotal
  have hlength := htotal.length_eq
  simp at hlength

end Canon.Loop
