import Canon.Lib.Machine
import Canon.Lib.PriorityQueue
import Canon.Loop.Context

/-! # The scheduler and the slots of its agents

    The loop pushes tasks without an agent; the scheduler itself also limits how
    many tasks of one agent are out at a time.  Here it is modelled with its
    agents, and every history of its calls is considered:
    * **conservation**: what is queued and what was handed out is what was pushed,
    * **slots**: no agent has more tasks out than its capacity,
    * **order**: a pop takes the first task it may take and leaves the others,
    * **blocking**: a pop takes nothing exactly when there is nothing to take or
      the first task has no free slot.

    The scheduler of the loop's context takes the same tasks (`Scheduler.Follows`).
-/

namespace Canon.Loop

/-! ### The queue -/

structure AgentTask extends ScheduledTask where
  agentId : Option Text
deriving Repr, Inhabited

namespace AgentTask

/-- Higher priority first, then the earlier one, then the one pushed earlier. -/
def Before (a b : AgentTask) : Prop :=
  a.toScheduledTask.leavesBefore b.toScheduledTask = true

instance : DecidableRel Before := fun a b =>
  inferInstanceAs (Decidable (a.toScheduledTask.leavesBefore b.toScheduledTask = true))

theorem before_iff (a b : AgentTask) :
    a.Before b ↔ b.priority.rank < a.priority.rank ∨
      (a.priority.rank = b.priority.rank ∧ (a.enqueuedAt < b.enqueuedAt ∨
        (a.enqueuedAt = b.enqueuedAt ∧ a.seq < b.seq))) := by
  simp [Before, ScheduledTask.leavesBefore]

/-- The order of the heap. -/
def NotAfter (a b : AgentTask) : Prop := ¬ b.Before a

instance : DecidableRel NotAfter := fun a b => inferInstanceAs (Decidable (¬ b.Before a))

instance : Std.Total NotAfter where
  total a b := by
    simp only [NotAfter, before_iff]
    omega

instance : IsTrans AgentTask NotAfter where
  trans a b c := by
    simp only [NotAfter, before_iff]
    omega

/-- Only tasks with one number tie. -/
theorem seq_eq_of_tie {a b : AgentTask} (hab : a.NotAfter b) (hba : b.NotAfter a) :
    a.seq = b.seq := by
  simp only [NotAfter, before_iff] at hab hba
  omega

theorem before_of_notAfter {a b : AgentTask} (hab : a.NotAfter b) (hne : a.seq ≠ b.seq) :
    a.Before b := by
  simp only [NotAfter, before_iff] at *
  omega

end AgentTask

/-! ### The scheduler -/

def usizeMax : Nat := 2 ^ 64 - 1

def u64Max : Nat := 2 ^ 64 - 1

structure AgentScheduler where
  heap : PriorityQueue AgentTask AgentTask.NotAfter
  seq : Nat
  agentCapacity : FMap Text Nat
  agentActive : FMap Text Nat

namespace AgentScheduler

variable (s : AgentScheduler)

/-- A new scheduler that has been told the capacities. -/
def new (agentCapacity : FMap Text Nat) : AgentScheduler :=
  ⟨.empty, 0, agentCapacity, FMap.empty⟩

def push (task : AgentTask) : AgentScheduler :=
  { s with
    heap := s.heap.push { task with seq := s.seq }
    seq := min (s.seq + 1) u64Max }

def capacity (agentId : Text) : Nat :=
  (s.agentCapacity agentId).getD usizeMax

def active (agentId : Text) : Nat :=
  (s.agentActive agentId).getD 0

def hasCapacity (agentId : Text) : Bool :=
  s.active agentId < s.capacity agentId

/-- The end of both pops: the task that was found is handed out, or goes back into
    the heap when its agent has no slot. -/
def handOut (task : AgentTask) : Option AgentTask × AgentScheduler :=
  match task.agentId with
  | none => (some task, s)
  | some agentId =>
    if s.hasCapacity agentId then
      (some task, { s with agentActive := s.agentActive.insert agentId (s.active agentId + 1) })
    else (none, { s with heap := s.heap.push task })

def popAny : Option AgentTask × AgentScheduler :=
  match s.heap.pop with
  | none => (none, s)
  | some (task, rest) => { s with heap := rest }.handOut task

def popForLlm : Option Text → Option AgentTask × AgentScheduler
  | none => s.popAny
  | some target =>
    let (stash, found, left) :=
      PriorityQueue.popUntil (·.plan.llmRequestId = some target) s.heap.items s.heap.sorted
    let s := { s with heap := left.pushAll stash }
    match found with
    | none => (none, s)
    | some task => s.handOut task

def complete : Option Text → AgentScheduler
  | none => s
  | some agentId =>
    match s.agentActive agentId with
    | none => s
    | some active => { s with agentActive := s.agentActive.insert agentId (active - 1) }

end AgentScheduler

/-! ### Histories -/

inductive SchedulerCall where
  | push (task : AgentTask)
  | popAny
  | popForLlm (llmRequestId : Option Text)
  | complete (agentId : Option Text)

/-- The scheduler and the tasks it has handed out so far. -/
structure SchedulerRun where
  scheduler : AgentScheduler
  popped : List AgentTask

namespace SchedulerRun

def start (agentCapacity : FMap Text Nat) : SchedulerRun := ⟨.new agentCapacity, []⟩

/-- The queued tasks in the order in which they leave. -/
def queued (r : SchedulerRun) : List AgentTask := r.scheduler.heap.items

def collect (r : SchedulerRun) (result : Option AgentTask × AgentScheduler) : SchedulerRun :=
  ⟨result.2, r.popped ++ result.1.toList⟩

end SchedulerRun

def schedulerMachine : Machine SchedulerRun SchedulerCall where
  step r
    | .push task => { r with scheduler := r.scheduler.push task }
    | .popAny => r.collect r.scheduler.popAny
    | .popForLlm id => r.collect (r.scheduler.popForLlm id)
    | .complete agentId => { r with scheduler := r.scheduler.complete agentId }

/-- The tasks the calls push. -/
def pushedBy (calls : List SchedulerCall) : List AgentTask :=
  calls.filterMap fun
    | .push task => some task
    | _ => none

/-- Tasks with the numbers they get when they are pushed. -/
def numbered (tasks : List AgentTask) : List AgentTask :=
  tasks.zipIdx.map fun (task, i) => { task with seq := i }

/-! ### What a pop can do -/

namespace AgentScheduler

variable {s : AgentScheduler}

/-- The task needs no slot, or its agent has a free one. -/
def HasSlot (s : AgentScheduler) (task : AgentTask) : Prop :=
  ∀ agentId, task.agentId = some agentId → s.active agentId < s.capacity agentId

/-- The numbers of queued tasks are distinct and were given out. -/
structure Numbered (s : AgentScheduler) : Prop where
  distinct : (s.heap.items.map (·.seq)).Nodup
  below : ∀ task ∈ s.heap.items, task.seq < s.seq

theorem Numbered.eq_of_tie (h : s.Numbered) :
    ∀ a ∈ s.heap.items, ∀ b ∈ s.heap.items, a.NotAfter b → b.NotAfter a → a = b := by
  intro a ha b hb hab hba
  exact List.inj_on_of_nodup_map h.distinct ha hb (AgentTask.seq_eq_of_tie hab hba)

/-- The queue is in strict order. -/
theorem Numbered.ordered (h : s.Numbered) :
    s.heap.items.Pairwise AgentTask.Before := by
  have hne : s.heap.items.Pairwise fun a b => a.seq ≠ b.seq := List.pairwise_map.mp h.distinct
  apply (s.heap.sorted.and hne).imp
  intro a b hab
  exact AgentTask.before_of_notAfter hab.1 hab.2

/-- Taking the first task that passes a test.  `result` is what comes out of it. -/
inductive Pops (s : AgentScheduler) (test : AgentTask → Bool)
    (result : Option AgentTask × AgentScheduler) : Prop where
  | nothing (hnone : ∀ task ∈ s.heap.items, test task = false) (hresult : result = (none, s))
  | blocked (before : List AgentTask) (task : AgentTask) (after : List AgentTask)
      (hitems : s.heap.items = before ++ task :: after) (htest : test task = true)
      (hfirst : ∀ other ∈ before, test other = false) (hslot : ¬ s.HasSlot task)
      (hresult : result = (none, s))
  | taken (before : List AgentTask) (task : AgentTask) (after : List AgentTask)
      (hitems : s.heap.items = before ++ task :: after) (htest : test task = true)
      (hfirst : ∀ other ∈ before, test other = false) (hslot : s.HasSlot task)
      (htask : result.1 = some task) (hrest : result.2.heap.items = before ++ after)
      (hseq : result.2.seq = s.seq) (hcapacity : result.2.agentCapacity = s.agentCapacity)
      (hactive : ∀ agentId, result.2.active agentId =
        s.active agentId + if task.agentId = some agentId then 1 else 0)

theorem Pops.unchanged {test : AgentTask → Bool} {result : Option AgentTask × AgentScheduler}
    (h : s.Pops test result) (hnone : result.1 = none) : result.2 = s := by
  cases h with
  | nothing _ hresult => rw [hresult]
  | blocked _ _ _ _ _ _ _ hresult => rw [hresult]
  | taken _ task _ _ _ _ _ htask _ _ _ _ => simp [htask] at hnone

theorem Pops.first {test : AgentTask → Bool} {result : Option AgentTask × AgentScheduler}
    (h : s.Pops test result) {task : AgentTask} (hsome : result.1 = some task) :
    test task = true ∧ ∃ before after, s.heap.items = before ++ task :: after ∧
      result.2.heap.items = before ++ after ∧ ∀ other ∈ before, test other = false := by
  cases h with
  | nothing _ hresult => simp [hresult] at hsome
  | blocked _ _ _ _ _ _ _ hresult => simp [hresult] at hsome
  | taken before taken after hitems htest hfirst _ htask hrest _ _ _ =>
    obtain rfl : taken = task := by
      rw [htask] at hsome
      exact Option.some.inj hsome
    exact ⟨htest, before, after, hitems, hrest, hfirst⟩

/-- `handOut` after the task was taken out of the heap of `s`. -/
theorem handOut_pops (h : s.Numbered) {test : AgentTask → Bool}
    {heap : PriorityQueue AgentTask AgentTask.NotAfter} {before after : List AgentTask}
    {task : AgentTask} (hitems : s.heap.items = before ++ task :: after) (htest : test task = true)
    (hfirst : ∀ other ∈ before, test other = false) (hheap : heap.items = before ++ after) :
    s.Pops test ({ s with heap := heap }.handOut task) := by
  unfold handOut
  cases hagent : task.agentId with
  | none =>
    have hslot : s.HasSlot task := by
      intro agentId hid
      rw [hagent] at hid
      simp at hid
    refine .taken before task after hitems htest hfirst hslot rfl hheap rfl rfl ?_
    intro agentId
    show s.active agentId = _
    simp [hagent]
  | some agentId =>
    by_cases hfree : s.active agentId < s.capacity agentId
    · have hslot : s.HasSlot task := by
        intro other hid
        rw [hagent] at hid
        rw [← Option.some.inj hid]
        exact hfree
      have hcheck : ({ s with heap := heap } : AgentScheduler).hasCapacity agentId = true := by
        show decide (s.active agentId < s.capacity agentId) = true
        simp [hfree]
      simp only [hcheck, if_true]
      refine .taken before task after hitems htest hfirst hslot rfl hheap rfl rfl ?_
      intro other
      show ((s.agentActive.insert agentId (s.active agentId + 1)) other).getD 0 = _
      by_cases hother : other = agentId
      · subst hother
        simp [hagent]
      · rw [FMap.insert_of_ne _ _ hother]
        simp [active, hagent, Ne.symm hother]
    · have hslot : ¬ s.HasSlot task := fun hall => hfree (hall agentId hagent)
      have hcheck : ({ s with heap := heap } : AgentScheduler).hasCapacity agentId = false := by
        show decide (s.active agentId < s.capacity agentId) = false
        simp [hfree]
      -- The task goes back to where it stood.
      have hback : heap.push task = s.heap := by
        apply PriorityQueue.push_eq _ _ _ h.eq_of_tie
        rw [hitems, hheap]
        exact List.perm_middle
      simp only [hcheck, Bool.false_eq_true, if_false, hback]
      exact .blocked before task after hitems htest hfirst hslot rfl

theorem handOut_eq_none_iff (s : AgentScheduler) (task : AgentTask) :
    (s.handOut task).1 = none ↔ ¬ s.HasSlot task := by
  unfold handOut HasSlot
  cases hagent : task.agentId with
  | none => simp
  | some agentId =>
    by_cases hfree : s.active agentId < s.capacity agentId
    · have hcheck : s.hasCapacity agentId = true := by simp [hasCapacity, hfree]
      simp [hcheck, hfree]
    · have hcheck : s.hasCapacity agentId = false := by simp [hasCapacity, hfree]
      simpa [hcheck] using hfree

theorem popAny_pops (h : s.Numbered) : s.Pops (fun _ => true) s.popAny := by
  unfold popAny
  cases hpop : s.heap.pop with
  | none =>
    have hitems := PriorityQueue.pop_eq_none_iff.mp hpop
    exact .nothing (by simp [hitems]) rfl
  | some found =>
    obtain ⟨task, rest⟩ := found
    have hitems : s.heap.items = [] ++ task :: rest.items := PriorityQueue.items_of_pop hpop
    exact handOut_pops h hitems rfl (by simp) rfl

theorem popForLlm_pops (h : s.Numbered) (target : Text) :
    s.Pops (·.plan.llmRequestId = some target) (s.popForLlm (some target)) := by
  simp only [popForLlm]
  have hspec := PriorityQueue.popUntil_spec
    (fun task : AgentTask => decide (task.plan.llmRequestId = some target)) s.heap.items
    s.heap.sorted
  generalize PriorityQueue.popUntil _ s.heap.items s.heap.sorted = popped at hspec ⊢
  obtain ⟨stash, found, left⟩ := popped
  obtain ⟨hitems, hstash, hfound, hempty⟩ := hspec
  cases found with
  | none =>
    -- Everything was taken out, and everything goes back.
    rw [hempty rfl, Option.toList_none, List.append_nil, List.append_nil] at hitems
    have hback : left.pushAll stash = s.heap := by
      apply PriorityQueue.pushAll_eq _ _ _ h.eq_of_tie
      rw [hempty rfl, List.append_nil, hitems]
    simp only [hback]
    refine .nothing ?_ rfl
    rw [hitems]
    exact hstash
  | some task =>
    have hitems : s.heap.items = stash ++ task :: left.items := by
      rw [hitems]
      simp
    -- What stood before the task goes back before what stands behind it.
    have hsorted : (stash ++ left.items).Pairwise AgentTask.NotAfter := by
      refine s.heap.sorted.sublist ?_
      rw [hitems]
      exact List.Sublist.append (List.Sublist.refl _) (List.sublist_cons_self _ _)
    have hback : left.pushAll stash = ⟨stash ++ left.items, hsorted⟩ := by
      apply PriorityQueue.pushAll_eq _ _ (.refl _)
      intro a ha b hb
      apply h.eq_of_tie
      · rw [hitems]
        rcases List.mem_append.mp ha with ha | ha
        · simp [ha]
        · simp [ha]
      · rw [hitems]
        rcases List.mem_append.mp hb with hb | hb
        · simp [hb]
        · simp [hb]
    exact handOut_pops h hitems (hfound task rfl) hstash (by rw [hback])

theorem complete_frame (s : AgentScheduler) (agentId : Option Text) :
    (s.complete agentId).heap = s.heap ∧ (s.complete agentId).seq = s.seq ∧
      (s.complete agentId).agentCapacity = s.agentCapacity := by
  unfold complete
  split
  · exact ⟨rfl, rfl, rfl⟩
  · split
    · exact ⟨rfl, rfl, rfl⟩
    · exact ⟨rfl, rfl, rfl⟩

theorem active_complete_le (s : AgentScheduler) (agentId : Option Text) (other : Text) :
    (s.complete agentId).active other ≤ s.active other := by
  cases agentId with
  | none => exact le_refl _
  | some agentId =>
    cases hactive : s.agentActive agentId with
    | none => simp [complete, hactive]
    | some active =>
      simp only [complete, hactive]
      show ((s.agentActive.insert agentId (active - 1)) other).getD 0 ≤ (s.agentActive other).getD 0
      by_cases hother : other = agentId
      · subst hother
        rw [FMap.insert_self, hactive, Option.getD_some, Option.getD_some]
        omega
      · rw [FMap.insert_of_ne _ _ hother]

end AgentScheduler

/-! ### Histories keep the tasks -/

theorem pushedBy_snoc_push (calls : List SchedulerCall) (task : AgentTask) :
    pushedBy (calls ++ [.push task]) = pushedBy calls ++ [task] := by
  simp [pushedBy]

theorem pushedBy_length_mono (calls : List SchedulerCall) (call : SchedulerCall) :
    (pushedBy calls).length ≤ (pushedBy (calls ++ [call])).length := by
  unfold pushedBy
  rw [List.filterMap_append, List.length_append]
  omega

theorem numbered_snoc (tasks : List AgentTask) (task : AgentTask) :
    numbered (tasks ++ [task]) = numbered tasks ++ [{ task with seq := tasks.length }] := by
  simp [numbered, List.zipIdx_append]

theorem numbered_seqs (tasks : List AgentTask) :
    (numbered tasks).map (·.seq) = List.range tasks.length := by
  rw [numbered, List.map_map]
  show tasks.zipIdx.map Prod.snd = List.range tasks.length
  rw [List.zipIdx_map_snd, List.range_eq_range']

/-- What holds after fewer than `2 ^ 64` pushes. -/
structure ScheduleInv (agentCapacity : FMap Text Nat) (calls : List SchedulerCall)
    (r : SchedulerRun) : Prop where
  conserved : (r.queued ++ r.popped).Perm (numbered (pushedBy calls))
  seq : r.scheduler.seq = (pushedBy calls).length
  capacity : r.scheduler.agentCapacity = agentCapacity
  slots : ∀ agentId, r.scheduler.active agentId ≤ r.scheduler.capacity agentId

namespace ScheduleInv

variable {agentCapacity : FMap Text Nat} {calls : List SchedulerCall} {r : SchedulerRun}

theorem start (agentCapacity : FMap Text Nat) :
    ScheduleInv agentCapacity [] (.start agentCapacity) where
  conserved := .refl _
  seq := rfl
  capacity := rfl
  slots := fun _ => Nat.zero_le _

theorem isNumbered (h : ScheduleInv agentCapacity calls r) : r.scheduler.Numbered := by
  have hseqs := h.conserved.map (·.seq)
  rw [numbered_seqs, List.map_append] at hseqs
  constructor
  · have hnodup := hseqs.nodup_iff.mpr List.nodup_range
    exact (List.nodup_append.mp hnodup).1
  · intro task htask
    have hmem : task.seq ∈ r.queued.map (·.seq) ++ r.popped.map (·.seq) :=
      List.mem_append_left _ (List.mem_map_of_mem htask)
    rw [h.seq]
    exact List.mem_range.mp (hseqs.subset hmem)

theorem push (h : ScheduleInv agentCapacity calls r) (task : AgentTask)
    (hfew : (pushedBy (calls ++ [.push task])).length < 2 ^ 64) :
    ScheduleInv agentCapacity (calls ++ [.push task])
      (schedulerMachine.step r (.push task)) := by
  rw [pushedBy_snoc_push, List.length_append, List.length_singleton] at hfew
  constructor
  · rw [pushedBy_snoc_push, numbered_snoc, ← h.seq]
    have hpush := PriorityQueue.perm_push r.scheduler.heap { task with seq := r.scheduler.seq }
    apply (hpush.append_right r.popped).trans
    exact (h.conserved.cons _).trans (List.perm_append_singleton _ _).symm
  · show min (r.scheduler.seq + 1) u64Max = _
    rw [pushedBy_snoc_push, List.length_append, List.length_singleton, h.seq]
    unfold u64Max
    omega
  · exact h.capacity
  · exact h.slots

/-- A call that touches neither the queue nor the numbers and takes no slot. -/
theorem frame (h : ScheduleInv agentCapacity calls r) {r' : SchedulerRun} (call : SchedulerCall)
    (hcall : pushedBy (calls ++ [call]) = pushedBy calls)
    (hheap : r'.scheduler.heap = r.scheduler.heap) (hpopped : r'.popped = r.popped)
    (hseq : r'.scheduler.seq = r.scheduler.seq)
    (hcapacity : r'.scheduler.agentCapacity = r.scheduler.agentCapacity)
    (hactive : ∀ agentId, r'.scheduler.active agentId ≤ r.scheduler.active agentId) :
    ScheduleInv agentCapacity (calls ++ [call]) r' := by
  constructor
  · rw [hcall, SchedulerRun.queued, hheap, hpopped]
    exact h.conserved
  · rw [hcall, hseq]
    exact h.seq
  · rw [hcapacity]
    exact h.capacity
  · intro agentId
    rw [AgentScheduler.capacity, hcapacity]
    exact (hactive agentId).trans (h.slots agentId)

/-- A pop, whatever it takes. -/
theorem pop (h : ScheduleInv agentCapacity calls r) {test : AgentTask → Bool}
    {result : Option AgentTask × AgentScheduler} (hpops : r.scheduler.Pops test result)
    (call : SchedulerCall) (hcall : pushedBy (calls ++ [call]) = pushedBy calls) :
    ScheduleInv agentCapacity (calls ++ [call]) (r.collect result) := by
  cases hpops with
  | nothing hnone hresult =>
    subst hresult
    exact h.frame call hcall rfl (List.append_nil _) rfl rfl fun _ => le_refl _
  | blocked before task after hitems htest hfirst hslot hresult =>
    subst hresult
    exact h.frame call hcall rfl (List.append_nil _) rfl rfl fun _ => le_refl _
  | taken before task after hitems htest hfirst hslot htask hrest hseq hcapacity hactive =>
    constructor
    · have hmoved : (before ++ after ++ (r.popped ++ [task])).Perm (r.queued ++ r.popped) := by
        show (before ++ after ++ (r.popped ++ [task])).Perm (r.scheduler.heap.items ++ r.popped)
        rw [hitems, ← List.append_assoc]
        apply List.perm_append_comm.trans
        show (task :: (before ++ after ++ r.popped)).Perm (before ++ task :: after ++ r.popped)
        rw [List.append_assoc, List.append_assoc]
        exact List.perm_middle.symm
      rw [hcall]
      refine .trans ?_ h.conserved
      show (result.2.heap.items ++ (r.popped ++ result.1.toList)).Perm _
      rw [htask, hrest]
      exact hmoved
    · rw [hcall, ← h.seq]
      exact hseq
    · exact hcapacity.trans h.capacity
    · intro agentId
      show result.2.active agentId ≤ result.2.capacity agentId
      have hsame : result.2.capacity agentId = r.scheduler.capacity agentId := by
        simp only [AgentScheduler.capacity, hcapacity]
      rw [hactive, hsame]
      have hbound := h.slots agentId
      by_cases hagent : task.agentId = some agentId
      -- The slot that is taken was free.
      · have hfree := hslot agentId hagent
        simp only [hagent, if_true]
        omega
      · simp only [hagent, if_false]
        omega

theorem complete (h : ScheduleInv agentCapacity calls r) (agentId : Option Text) :
    ScheduleInv agentCapacity (calls ++ [.complete agentId])
      (schedulerMachine.step r (.complete agentId)) := by
  have hcall : pushedBy (calls ++ [.complete agentId]) = pushedBy calls := by
    simp [pushedBy]
  have hframe := r.scheduler.complete_frame agentId
  exact h.frame _ hcall hframe.1 rfl hframe.2.1 hframe.2.2 (r.scheduler.active_complete_le agentId)

theorem step (h : ScheduleInv agentCapacity calls r) (call : SchedulerCall)
    (hfew : (pushedBy (calls ++ [call])).length < 2 ^ 64) :
    ScheduleInv agentCapacity (calls ++ [call]) (schedulerMachine.step r call) := by
  cases call with
  | push task => exact h.push task hfew
  | popAny => exact h.pop (AgentScheduler.popAny_pops h.isNumbered) _ (by simp [pushedBy])
  | popForLlm llmRequestId =>
    cases llmRequestId with
    | none => exact h.pop (AgentScheduler.popAny_pops h.isNumbered) _ (by simp [pushedBy])
    | some target =>
      exact h.pop (AgentScheduler.popForLlm_pops h.isNumbered target) _ (by simp [pushedBy])
  | complete agentId => exact h.complete agentId

theorem run (agentCapacity : FMap Text Nat) (calls : List SchedulerCall)
    (hfew : (pushedBy calls).length < 2 ^ 64) :
    ScheduleInv agentCapacity calls (schedulerMachine.run (.start agentCapacity) calls) := by
  induction calls using List.reverseRecOn with
  | nil => exact .start agentCapacity
  | append_singleton calls call ih =>
    have hmono := pushedBy_length_mono calls call
    rw [Machine.run_snoc]
    exact (ih (by omega)).step call hfew

end ScheduleInv

/-- **The scheduler conserves and orders its tasks**, after every history of calls:
    nothing is lost or duplicated, no agent exceeds its capacity, a pop that takes
    nothing changes nothing, and a pop takes the first task it looks for and keeps
    the others in their order. -/
theorem scheduler_conserves_and_orders (agentCapacity : FMap Text Nat)
    (calls : List SchedulerCall) (hfew : (pushedBy calls).length < 2 ^ 64) :
    let r := schedulerMachine.run (.start agentCapacity) calls
    let s := r.scheduler
    (r.queued ++ r.popped).Perm (numbered (pushedBy calls)) ∧
      (∀ agentId, s.active agentId ≤ (agentCapacity agentId).getD usizeMax) ∧
      (s.popAny.1 = none → s.popAny.2 = s) ∧
      (∀ id, (s.popForLlm id).1 = none → (s.popForLlm id).2 = s) ∧
      r.queued.Pairwise AgentTask.Before ∧
      (∀ task, s.popAny.1 = some task → r.queued = task :: s.popAny.2.heap.items) ∧
      (∀ l task, (s.popForLlm (some l)).1 = some task →
        task.plan.llmRequestId = some l ∧ ∃ before after, r.queued = before ++ task :: after ∧
          (s.popForLlm (some l)).2.heap.items = before ++ after ∧
          ∀ other ∈ before, other.plan.llmRequestId ≠ some l) := by
  intro r s
  have hinv := ScheduleInv.run agentCapacity calls hfew
  have hany := AgentScheduler.popAny_pops hinv.isNumbered
  refine ⟨hinv.conserved, ?_, hany.unchanged, ?_, hinv.isNumbered.ordered, ?_, ?_⟩
  · intro agentId
    have hslots := hinv.slots agentId
    rw [AgentScheduler.capacity, hinv.capacity] at hslots
    exact hslots
  · intro id
    cases id with
    | none => exact hany.unchanged
    | some l => exact (AgentScheduler.popForLlm_pops hinv.isNumbered l).unchanged
  · intro task htask
    obtain ⟨-, before, after, hitems, hrest, hfirst⟩ := hany.first htask
    -- Every task passes the test, so none stands before the first that does.
    obtain rfl : before = [] := by
      apply List.eq_nil_iff_forall_not_mem.mpr
      intro other hother
      exact absurd (hfirst other hother) (by simp)
    show s.heap.items = task :: s.popAny.2.heap.items
    rw [hrest]
    exact hitems
  · intro l task htask
    obtain ⟨htest, before, after, hitems, hrest, hfirst⟩ :=
      (AgentScheduler.popForLlm_pops hinv.isNumbered l).first htask
    refine ⟨of_decide_eq_true htest, before, after, hitems, hrest, ?_⟩
    intro other hother
    exact of_decide_eq_false (hfirst other hother)

/-- One task of an agent with one slot is out, another one of it waits before a task
    of an agent without a limit. -/
def blockedCapacity : FMap Text Nat := FMap.empty.insert "worker" 1

def blockedTask (agentId : Text) (enqueuedAt : Nat) : AgentTask where
  priority := .normal
  enqueuedAt := enqueuedAt
  seq := 0
  plan := { (default : LoopPlanned) with llmRequestId := some "batch" }
  agentId := some agentId

def blockedCalls : List SchedulerCall :=
  [.push (blockedTask "worker" 1), .popAny, .push (blockedTask "worker" 2),
    .push (blockedTask "helper" 3)]

theorem scheduler_conserves_and_orders_blocked :
    (pushedBy blockedCalls).length < 2 ^ 64 ∧
      let r := schedulerMachine.run (.start blockedCapacity) blockedCalls
      (r.queued ++ r.popped).Perm (numbered (pushedBy blockedCalls)) ∧
        r.queued.Pairwise AgentTask.Before ∧ r.scheduler.popAny.2 = r.scheduler := by
  have hfew : (pushedBy blockedCalls).length < 2 ^ 64 := by simp [pushedBy, blockedCalls]
  have h := scheduler_conserves_and_orders blockedCapacity blockedCalls hfew
  exact ⟨hfew, h.1, h.2.2.2.2.1, h.2.2.1 rfl⟩

/-! ### When a pop takes nothing -/

/-- **A pop takes nothing exactly when the first task it may take is blocked**, or there
    is no such task. -/
theorem pop_takes_nothing_iff (agentCapacity : FMap Text Nat) (calls : List SchedulerCall) :
    let s := (schedulerMachine.run (.start agentCapacity) calls).scheduler
    (s.popAny.1 = none ↔ ∀ task, s.heap.items.head? = some task → ¬ s.HasSlot task) ∧
      ∀ l, (s.popForLlm (some l)).1 = none ↔
        ∀ task, s.heap.items.find? (·.plan.llmRequestId = some l) = some task →
          ¬ s.HasSlot task := by
  intro s
  constructor
  · unfold AgentScheduler.popAny
    cases hpop : s.heap.pop with
    | none => simp [PriorityQueue.pop_eq_none_iff.mp hpop]
    | some found =>
      obtain ⟨task, rest⟩ := found
      rw [PriorityQueue.items_of_pop hpop]
      simp only [List.head?_cons, Option.some.injEq, forall_eq']
      exact AgentScheduler.handOut_eq_none_iff _ task
  · intro l
    simp only [AgentScheduler.popForLlm]
    rw [← PriorityQueue.popUntil_found _ s.heap.items s.heap.sorted]
    generalize PriorityQueue.popUntil _ s.heap.items s.heap.sorted = popped
    obtain ⟨stash, found, left⟩ := popped
    cases found with
    | none => simp
    | some task =>
      simp only [Option.some.injEq, forall_eq']
      exact AgentScheduler.handOut_eq_none_iff _ task

theorem blocked_task_hides_another :
    let s := (schedulerMachine.run (.start blockedCapacity) blockedCalls).scheduler
    s.popAny.1 = none ∧ (s.popForLlm (some "batch")).1 = none ∧
      ∃ task ∈ s.heap.items, task.plan.llmRequestId = some "batch" ∧ s.HasSlot task := by
  have hqueued : { blockedTask "helper" 3 with seq := 2 } ∈
      (schedulerMachine.run (.start blockedCapacity) blockedCalls).scheduler.heap.items :=
    List.Mem.tail _ (List.Mem.head _)
  refine ⟨rfl, rfl, _, hqueued, rfl, ?_⟩
  intro agentId hid
  obtain rfl := Option.some.inj hid
  decide

/-! ### The scheduler of the loop -/

/-- The task as the loop pushes it. -/
def ScheduledTask.unowned (task : ScheduledTask) : AgentTask := ⟨task, none⟩

/-- The loop's scheduler holds the tasks of `a`, and none of them has an agent. -/
structure Scheduler.Follows (s : Scheduler) (a : AgentScheduler) : Prop where
  tasks : (s.heap.map (·.unowned)).Perm a.heap.items
  seq : s.seq = a.seq

/-- A pop of the loop's scheduler `s` and one of the other take the same task and leave
    the same tasks. -/
structure Scheduler.Agrees (s : Scheduler) (taken : Option (ScheduledTask × Scheduler))
    (result : Option AgentTask × AgentScheduler) : Prop where
  task : result.1 = taken.map (·.1.unowned)
  left : ((taken.map (·.2)).getD s).Follows result.2

theorem popHeap_spec (tasks : List ScheduledTask) :
    (popHeap tasks).elim (tasks = []) fun found => tasks.Perm (found.1 :: found.2) ∧
      ∀ other ∈ found.2, found.1.unowned.NotAfter other.unowned := by
  induction tasks with
  | nil => rfl
  | cons task tasks ih =>
    rw [popHeap]
    cases hpop : popHeap tasks with
    | none =>
      rw [hpop] at ih
      obtain rfl : tasks = [] := ih
      exact ⟨.refl _, fun _ hother => nomatch hother⟩
    | some found =>
      rw [hpop] at ih
      obtain ⟨hperm, hfirst⟩ := ih
      dsimp only
      by_cases hbefore : task.leavesBefore found.1 = true
      · rw [if_pos hbefore]
        have hle : task.unowned.NotAfter found.1.unowned := by
          have hlt : task.unowned.Before found.1.unowned := hbefore
          simp only [AgentTask.NotAfter, AgentTask.before_iff] at hlt ⊢
          omega
        refine ⟨hperm.cons task, List.forall_mem_cons.mpr ⟨hle, ?_⟩⟩
        exact fun other hother => IsTrans.trans _ _ _ hle (hfirst other hother)
      · rw [if_neg hbefore]
        exact ⟨(hperm.cons task).trans (.swap _ _ _), List.forall_mem_cons.mpr ⟨hbefore, hfirst⟩⟩

namespace Scheduler.Follows

variable {s : Scheduler} {a : AgentScheduler} (h : s.Follows a)
include h

theorem push (task : ScheduledTask) (hfew : s.seq < u64Max) :
    (s.push task).Follows (a.push task.unowned) where
  tasks := by
    have hpush := PriorityQueue.perm_push a.heap { task.unowned with seq := a.seq }
    refine .trans ?_ (hpush.trans (h.tasks.symm.cons _)).symm
    rw [← h.seq]
    exact .refl _
  seq := by
    show s.seq + 1 = min (a.seq + 1) u64Max
    rw [← h.seq]
    omega

/-- Taking the first of the tasks that pass the test. -/
theorem pop (hnumbered : a.Numbered) {test : AgentTask → Bool}
    {result : Option AgentTask × AgentScheduler} (hpops : a.Pops test result)
    {mine others : List ScheduledTask} (hperm : s.heap.Perm (mine ++ others))
    (hmine : ∀ task ∈ mine, test task.unowned = true)
    (hothers : ∀ task ∈ others, test task.unowned = false) :
    s.Agrees ((popHeap mine).map fun found => (found.1, { s with heap := found.2 ++ others }))
      result := by
  have hitems : ((mine ++ others).map (·.unowned)).Perm a.heap.items :=
    (hperm.symm.map _).trans h.tasks
  have hfrom : ∀ task ∈ a.heap.items, test task = true → ∃ t ∈ mine, t.unowned = task := by
    intro task htask htest
    obtain ⟨t, ht, rfl⟩ := List.mem_map.mp (hitems.symm.subset htask)
    rcases List.mem_append.mp ht with ht | ht
    · exact ⟨t, ht, rfl⟩
    · rw [hothers t ht] at htest
      cases htest
  have hin : ∀ t ∈ mine, t.unowned ∈ a.heap.items := by
    intro t ht
    exact hitems.subset (List.mem_map_of_mem (List.mem_append_left _ ht))
  cases hpops with
  | nothing hnone hresult =>
    have hempty : mine = [] := by
      apply List.eq_nil_iff_forall_not_mem.mpr
      intro t ht
      have hfalse := hnone _ (hin t ht)
      rw [hmine t ht] at hfalse
      cases hfalse
    rw [hempty, hresult]
    exact ⟨rfl, h⟩
  | blocked before task after hsplit htest hfirst hslot hresult =>
    -- A task without an agent needs no slot.
    obtain ⟨t, -, rfl⟩ := hfrom task (by simp [hsplit]) htest
    exact absurd (fun agentId hid => nomatch hid) hslot
  | taken before task after hsplit htest hfirst hslot htask hrest hseq =>
    obtain ⟨t, ht, rfl⟩ := hfrom task (by simp [hsplit]) htest
    have hspec := popHeap_spec mine
    cases hpop : popHeap mine with
    | none =>
      rw [hpop] at hspec
      rw [show mine = [] from hspec] at ht
      cases ht
    | some found =>
      rw [hpop] at hspec
      obtain ⟨hfound, hleast⟩ := hspec
      have hin₁ := hfound.symm.subset List.mem_cons_self
      have hsame : found.1.unowned = t.unowned := by
        rcases List.mem_cons.mp (hfound.subset ht) with rfl | hlater
        · rfl
        -- The other queue holds the task behind the one that both take.
        have hmem := hin found.1 hin₁
        have hordered := hnumbered.ordered
        rw [hsplit] at hmem hordered
        rcases List.mem_append.mp hmem with hmem | hmem
        · have hfalse := hfirst _ hmem
          rw [hmine _ hin₁] at hfalse
          cases hfalse
        rcases List.mem_cons.mp hmem with heq | hmem
        · exact heq
        · have hbefore := List.rel_of_pairwise_cons (List.pairwise_append.mp hordered).2.1 hmem
          exact absurd hbefore (hleast t hlater)
      have hkept : ((found.2 ++ others).map (·.unowned)).Perm (before ++ after) := by
        have hall : (t.unowned :: (found.2 ++ others).map (·.unowned)).Perm
            (t.unowned :: (before ++ after)) := by
          rw [← hsame]
          apply (((hfound.append_right others).map _).symm.trans hitems).trans
          rw [hsplit, hsame]
          exact List.perm_middle
        exact hall.cons_inv
      refine ⟨?_, ?_, ?_⟩
      · rw [htask, ← hsame]
        rfl
      · rw [hrest]
        exact hkept
      · rw [hseq]
        exact h.seq

theorem popAny (hnumbered : a.Numbered) : s.Agrees s.popAny a.popAny := by
  have hperm : s.heap.Perm (s.heap ++ []) := by rw [List.append_nil]
  have hpop := h.pop hnumbered (AgentScheduler.popAny_pops hnumbered) hperm (fun _ _ => rfl)
    (fun _ hin => absurd hin List.not_mem_nil)
  simp only [List.append_nil] at hpop
  exact hpop

theorem popForLlm (hnumbered : a.Numbered) (id : Text) :
    s.Agrees (s.popForLlm id) (a.popForLlm (some id)) :=
  h.pop hnumbered (AgentScheduler.popForLlm_pops hnumbered id)
    (by simpa using (List.filter_append_perm (·.plan.llmRequestId = some id) s.heap).symm)
    (fun _ hmem => (List.mem_filter.mp hmem).2)
    (fun _ hmem => decide_eq_false (of_decide_eq_true (List.mem_filter.mp hmem).2))

end Scheduler.Follows

end Canon.Loop
