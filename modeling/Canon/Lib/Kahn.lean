import Mathlib.Algebra.GroupWithZero.Nat
import Mathlib.Data.Fintype.Pigeonhole

/-! # Kahn's algorithm

    The nodes without an incoming edge are queued.  A step takes the first of the queue,
    takes its outgoing edges off the counts of their ends, and queues the ends whose count
    becomes zero.

    * `release`, `step`, `start`: the algorithm, `Inv`: its invariant,
    * `mem_order_iff`: the nodes it comes to, those that no cycle reaches,
    * `Longest`, `Layered`: how long the longest path to a node is, and the queue in layers.
-/

namespace Kahn

open Relation

variable {α : Type*} [DecidableEq α]

/-! ### The algorithm -/

structure State (α : Type*) where
  indegree : α → Nat
  queue : List α
  order : List α

/-- The edges of one node are taken off. -/
def release : List α → (α → Nat) → List α → (α → Nat) × List α
  | [], indegree, queue => (indegree, queue)
  | v :: row, indegree, queue =>
    release row (Function.update indegree v (indegree v - 1))
      (if indegree v - 1 = 0 then queue ++ [v] else queue)

def step (next : α → List α) (s : State α) : State α :=
  match s.queue with
  | [] => s
  | u :: queue =>
    let r := release (next u) s.indegree queue
    ⟨r.1, r.2, s.order ++ [u]⟩

/-- The edges into a node from nodes that are not done. -/
def remaining (nodes : List α) (next : α → List α) (order : List α) (v : α) : Nat :=
  ((nodes.filter fun u => u ∉ order).map fun u => (next u).count v).sum

def start (nodes : List α) (next : α → List α) : State α :=
  let indegree := remaining nodes next []
  ⟨indegree, nodes.filter fun v => indegree v = 0, []⟩

def Edge (nodes : List α) (next : α → List α) (u v : α) : Prop := u ∈ nodes ∧ v ∈ next u

/-- Every edge into a node of the list comes from an earlier one. -/
inductive Ordered (E : α → α → Prop) : List α → Prop where
  | nil : Ordered E []
  | snoc {order : List α} {v : α} (h : Ordered E order) (hv : v ∉ order)
      (hpreds : ∀ u, E u v → u ∈ order) : Ordered E (order ++ [v])

/-- Some cycle reaches the node. -/
def FromCycle (E : α → α → Prop) (v : α) : Prop := ∃ c, TransGen E c c ∧ ReflTransGen E c v

structure Inv (nodes : List α) (next : α → List α) (s : State α) : Prop where
  indegree : ∀ v ∈ nodes, s.indegree v = remaining nodes next s.order v
  nodup : (s.order ++ s.queue).Nodup
  sub : ∀ v ∈ s.order ++ s.queue, v ∈ nodes
  zero : ∀ v ∈ nodes, (v ∈ s.order ++ s.queue ↔ s.indegree v = 0)
  ordered : Ordered (Edge nodes next) s.order

variable {nodes : List α} {next : α → List α} {s : State α} {E : α → α → Prop}
  {order row : List α} {indegree : α → Nat} {u v : α}

/-! ### Orders -/

omit [DecidableEq α] in
theorem Ordered.preds (h : Ordered E order) (hv : v ∈ order) (huv : E u v) : u ∈ order := by
  induction h with
  | nil => exact absurd hv List.not_mem_nil
  | snoc _ _ hpreds ih =>
    rcases List.mem_append.mp hv with hv | hv
    · exact List.mem_append_left _ (ih hv)
    · rw [List.mem_singleton.mp hv] at huv
      exact List.mem_append_left _ (hpreds u huv)

theorem Ordered.lt (h : Ordered E order) (hv : v ∈ order) (huv : E u v) :
    order.idxOf u < order.idxOf v := by
  induction h with
  | nil => exact absurd hv List.not_mem_nil
  | @snoc order w h hw hpreds ih =>
    by_cases hmem : v ∈ order
    · rw [List.idxOf_append_of_mem (h.preds hmem huv), List.idxOf_append_of_mem hmem]
      exact ih hmem
    · have hvw : v = w := by
        rcases List.mem_append.mp hv with hv | hv
        · exact absurd hv hmem
        · exact List.mem_singleton.mp hv
      rw [hvw] at huv ⊢
      have hu := hpreds u huv
      rw [List.idxOf_append_of_mem hu, List.idxOf_append_of_notMem hw]
      have hlt := List.idxOf_lt_length_of_mem hu
      omega

/-- No cycle reaches a node of an order. -/
theorem Ordered.not_fromCycle (h : Ordered E order) (hv : v ∈ order) : ¬ FromCycle E v := by
  intro ⟨c, hcycle, hpath⟩
  have hback : ∀ {a b}, ReflTransGen E a b → b ∈ order → a ∈ order := by
    intro a b hab hb
    induction hab with
    | refl => exact hb
    | tail _ hstep ih => exact ih (h.preds hb hstep)
  have hlower : ∀ {a b}, TransGen E a b → b ∈ order → order.idxOf a < order.idxOf b := by
    intro a b hab hb
    induction hab with
    | single hstep => exact h.lt hb hstep
    | tail _ hstep ih => exact (ih (h.preds hb hstep)).trans (h.lt hb hstep)
  exact Nat.lt_irrefl _ (hlower hcycle (hback hpath hv))

/-- Where every node of a finite set has an edge from the set, a cycle reaches each of them. -/
theorem fromCycle_of_preds (rest : List α) (h : ∀ v ∈ rest, ∃ u ∈ rest, E u v)
    (hv : v ∈ rest) : FromCycle E v := by
  choose! pred hpred using h
  let back : Nat → α := fun k => pred^[k] v
  have hmem : ∀ k, back k ∈ rest := by
    intro k
    induction k with
    | zero => exact hv
    | succ k ih =>
      show pred^[k + 1] v ∈ rest
      rw [Function.iterate_succ_apply']
      exact (hpred _ ih).1
  have hedge : ∀ k, E (back (k + 1)) (back k) := by
    intro k
    show E (pred^[k + 1] v) (back k)
    rw [Function.iterate_succ_apply']
    exact (hpred _ (hmem k)).2
  have hpath : ∀ k m, ReflTransGen E (back (k + m)) (back k) := by
    intro k m
    induction m with
    | zero => exact .refl
    | succ m ih => exact ih.head (hedge (k + m))
  -- The walk backwards comes to one node twice.
  obtain ⟨i, j, hne, heq⟩ := Finite.exists_ne_map_eq_of_infinite
    fun k => (⟨back k, hmem k⟩ : { x // x ∈ rest })
  have heq : back i = back j := congrArg Subtype.val heq
  have hcycle : ∀ {i j}, i < j → back i = back j → FromCycle E v := by
    intro i j hlt heq
    obtain ⟨m, rfl⟩ := Nat.exists_eq_add_of_lt hlt
    refine ⟨back i, ?_, ?_⟩
    · have hlast : TransGen E (back (i + m + 1)) (back i) :=
        TransGen.head' (hedge (i + m)) (hpath i m)
      rw [← heq] at hlast
      exact hlast
    · have hzero := hpath 0 i
      rw [Nat.zero_add] at hzero
      exact hzero
  rcases Nat.lt_or_gt_of_ne hne with hlt | hlt
  · exact hcycle hlt heq
  · exact hcycle hlt heq.symm

/-! ### One step -/

/-- What taking the edges off does: the counts go down, and the ends whose count becomes
    zero are queued, each once. -/
theorem release_spec (queue : List α) (hcount : ∀ v, row.count v ≤ indegree v) :
    (∀ v, (release row indegree queue).1 v = indegree v - row.count v) ∧
      ∃ new, (release row indegree queue).2 = queue ++ new ∧ new.Nodup ∧
        ∀ v, v ∈ new ↔ v ∈ row ∧ indegree v = row.count v := by
  induction row generalizing indegree queue with
  | nil =>
    refine ⟨fun v => rfl, [], (List.append_nil queue).symm, List.nodup_nil, ?_⟩
    simp
  | cons w row ih =>
    have hw := hcount w
    rw [List.count_cons_self] at hw
    have hrest : ∀ v, row.count v ≤ Function.update indegree w (indegree w - 1) v := by
      intro v
      by_cases hv : v = w
      · rw [hv, Function.update_self]
        omega
      · rw [Function.update_of_ne hv]
        have hle := hcount v
        rw [List.count_cons_of_ne (Ne.symm hv)] at hle
        exact hle
    obtain ⟨hindegree, new, hqueue, hnodup, hnew⟩ :=
      ih (if indegree w - 1 = 0 then queue ++ [w] else queue) hrest
    constructor
    · intro v
      rw [release, hindegree]
      by_cases hv : v = w
      · rw [hv, Function.update_self, List.count_cons_self]
        omega
      · rw [Function.update_of_ne hv, List.count_cons_of_ne (Ne.symm hv)]
    · rw [release, hqueue]
      by_cases hzero : indegree w - 1 = 0
      -- The last edge to `w`.
      · have hnone : w ∉ row := by
          intro hmem
          have hpos := List.count_pos_iff.mpr hmem
          omega
        refine ⟨w :: new, by rw [if_pos hzero, List.append_assoc]; rfl, ?_, ?_⟩
        · refine List.nodup_cons.mpr ⟨?_, hnodup⟩
          intro hmem
          exact hnone ((hnew w).mp hmem).1
        · intro v
          rw [List.mem_cons, hnew, List.mem_cons]
          by_cases hv : v = w
          · have hcount_zero := List.count_eq_zero.mpr hnone
            rw [hv, List.count_cons_self]
            simp only [true_or, true_and, true_iff]
            omega
          · rw [Function.update_of_ne hv, List.count_cons_of_ne (Ne.symm hv)]
            simp [hv]
      · refine ⟨new, by rw [if_neg hzero], hnodup, ?_⟩
        intro v
        rw [hnew, List.mem_cons]
        by_cases hv : v = w
        · rw [hv, Function.update_self, List.count_cons_self]
          simp only [true_or, true_and]
          constructor
          · intro ⟨_, heq⟩
            omega
          · intro heq
            have hmem : w ∈ row := List.count_pos_iff.mp (by omega)
            exact ⟨hmem, by omega⟩
        · rw [Function.update_of_ne hv, List.count_cons_of_ne (Ne.symm hv)]
          simp [hv]

theorem remaining_snoc (hnodup : nodes.Nodup) (hu : u ∈ nodes) (hnot : u ∉ order) (v : α) :
    remaining nodes next order v =
      (next u).count v + remaining nodes next (order ++ [u]) v := by
  obtain ⟨front, back, rfl⟩ := List.append_of_mem hu
  have hother : u ∉ front ∧ u ∉ back := by
    have hnot := (List.nodup_cons.mp (List.nodup_middle.mp hnodup)).1
    rw [List.mem_append, not_or] at hnot
    exact hnot
  have hsame : ∀ l : List α, u ∉ l →
      l.filter (fun w => w ∉ order ++ [u]) = l.filter fun w => w ∉ order := by
    intro l hl
    apply List.filter_congr
    intro w hw
    have hne : w ≠ u := by
      intro heq
      rw [heq] at hw
      exact hl hw
    simp [hne]
  have hin : (u :: back).filter (fun w => w ∉ order) = u :: back.filter fun w => w ∉ order :=
    List.filter_cons_of_pos (by simpa using hnot)
  have hout : (u :: back).filter (fun w => w ∉ order ++ [u]) =
      back.filter fun w => w ∉ order ++ [u] :=
    List.filter_cons_of_neg (by simp)
  rw [remaining, remaining, List.filter_append, List.filter_append, hin,
    hout, hsame front hother.1, hsame back hother.2, List.map_append,
    List.map_append, List.map_cons, List.sum_append, List.sum_append, List.sum_cons]
  omega

theorem remaining_eq_zero :
    remaining nodes next order v = 0 ↔ ∀ u, Edge nodes next u v → u ∈ order := by
  rw [remaining, List.sum_eq_zero_iff_forall_eq_nat]
  constructor
  · intro h u hedge
    by_contra hnot
    have hzero := h _ (List.mem_map.mpr ⟨u, List.mem_filter.mpr ⟨hedge.1, decide_eq_true hnot⟩,
      rfl⟩)
    exact List.count_eq_zero.mp hzero hedge.2
  · intro h k hk
    obtain ⟨u, hu, rfl⟩ := List.mem_map.mp hk
    obtain ⟨hmem, hnot⟩ := List.mem_filter.mp hu
    apply List.count_eq_zero.mpr
    intro hv
    exact of_decide_eq_true hnot (h u ⟨hmem, hv⟩)

theorem inv_start (hnodup : nodes.Nodup) : Inv nodes next (start nodes next) where
  indegree := fun _ _ => rfl
  nodup := hnodup.filter _
  sub := fun _ hv => List.mem_of_mem_filter hv
  zero := by
    intro v hv
    show v ∈ [] ++ nodes.filter _ ↔ remaining nodes next [] v = 0
    rw [List.nil_append, List.mem_filter]
    simp [hv]
  ordered := .nil

/-- All edges into a queued node come from nodes that are done. -/
theorem Inv.preds (h : Inv nodes next s) (hv : v ∈ s.queue) (huv : Edge nodes next u v) :
    u ∈ s.order := by
  have hmem := List.mem_append_right s.order hv
  have hnode := h.sub v hmem
  have hzero := (h.zero v hnode).mp hmem
  rw [h.indegree v hnode] at hzero
  exact remaining_eq_zero.mp hzero u huv

/-- The counts cover the edges of a node that is not done. -/
theorem Inv.count_le (hnodup : nodes.Nodup) (h : Inv nodes next s)
    (hnext : ∀ u ∈ nodes, ∀ v ∈ next u, v ∈ nodes) (hu : u ∈ nodes) (hnot : u ∉ s.order)
    (v : α) : (next u).count v ≤ s.indegree v := by
  by_cases hv : v ∈ next u
  · rw [h.indegree v (hnext u hu v hv), remaining_snoc hnodup hu hnot]
    omega
  · rw [List.count_eq_zero.mpr hv]
    omega

/-- What one step does to a queue that is not empty. -/
theorem Inv.step_cons (hnodup : nodes.Nodup) (hnext : ∀ u ∈ nodes, ∀ v ∈ next u, v ∈ nodes)
    (h : Inv nodes next s) {rest : List α} (hqueue : s.queue = u :: rest) :
    Inv nodes next (step next s) ∧ (step next s).order = s.order ++ [u] ∧
      ∃ new, (step next s).queue = rest ++ new ∧ ∀ v ∈ new, v ∈ next u := by
  have hmem : u ∈ s.order ++ s.queue := by
    rw [hqueue]
    simp
  have hnode := h.sub u hmem
  have hall := h.nodup
  rw [hqueue] at hall
  have hnot : u ∉ s.order := fun hin =>
    (List.nodup_append.mp hall).2.2 u hin u List.mem_cons_self rfl
  have hcount := h.count_le hnodup hnext hnode hnot
  obtain ⟨hindegree, new, hrelease, hnew_nodup, hnew⟩ :=
    release_spec rest hcount
  have hstep : step next s = ⟨(release (next u) s.indegree rest).1,
      (release (next u) s.indegree rest).2, s.order ++ [u]⟩ := by
    rw [step, hqueue]
  have hremaining : ∀ v ∈ nodes, (release (next u) s.indegree rest).1 v =
      remaining nodes next (s.order ++ [u]) v := by
    intro v hv
    rw [hindegree, h.indegree v hv, remaining_snoc hnodup hnode hnot]
    omega
  have hfresh : ∀ v ∈ new, v ∉ s.order ++ u :: rest := by
    intro v hv hin
    obtain ⟨hrow, heq⟩ := (hnew v).mp hv
    rw [← hqueue] at hin
    have hzero := (h.zero v (hnext u hnode v hrow)).mp hin
    have hpos := List.count_pos_iff.mpr hrow
    omega
  have hlist : s.order ++ [u] ++ (rest ++ new) = (s.order ++ u :: rest) ++ new := by simp
  rw [hstep]
  refine ⟨?_, rfl, new, hrelease, fun v hv => ((hnew v).mp hv).1⟩
  refine ⟨hremaining, ?_, ?_, ?_, ?_⟩
  · show (s.order ++ [u] ++ (release (next u) s.indegree rest).2).Nodup
    rw [hrelease, hlist]
    apply hall.append hnew_nodup
    intro v hv hv'
    exact hfresh v hv' hv
  · intro v hv
    have hv : v ∈ s.order ++ [u] ++ (release (next u) s.indegree rest).2 := hv
    rw [hrelease, hlist] at hv
    rcases List.mem_append.mp hv with hv | hv
    · rw [← hqueue] at hv
      exact h.sub v hv
    · exact hnext u hnode v ((hnew v).mp hv).1
  · intro v hv
    show v ∈ s.order ++ [u] ++ (release (next u) s.indegree rest).2 ↔
      (release (next u) s.indegree rest).1 v = 0
    have hle := hcount v
    rw [hrelease, hlist, List.mem_append, ← hqueue, h.zero v hv, hnew, hindegree]
    constructor
    · intro hor
      omega
    · intro hzero
      by_cases hrow : v ∈ next u
      · exact .inr ⟨hrow, by omega⟩
      · rw [List.count_eq_zero.mpr hrow] at hzero
        exact .inl (by omega)
  · exact .snoc h.ordered hnot fun w hw => h.preds (by rw [hqueue]; exact List.mem_cons_self) hw

/-- What is left when the queue is empty. -/
theorem mem_order_iff (h : Inv nodes next s)
    (hqueue : s.queue = []) (v : α) :
    v ∈ s.order ↔ v ∈ nodes ∧ ¬ FromCycle (Edge nodes next) v := by
  constructor
  · intro hv
    exact ⟨h.sub v (List.mem_append_left _ hv), h.ordered.not_fromCycle hv⟩
  · intro ⟨hnode, hacyclic⟩
    by_contra hnot
    apply hacyclic
    apply fromCycle_of_preds (nodes.filter fun w => w ∉ s.order) _
      (List.mem_filter.mpr ⟨hnode, decide_eq_true hnot⟩)
    -- A node that was never queued has an edge from another such node.
    intro w hw
    obtain ⟨hw, hout⟩ := List.mem_filter.mp hw
    have hpositive : s.indegree w ≠ 0 := by
      intro hzero
      have hmem := (h.zero w hw).mpr hzero
      rw [hqueue, List.append_nil] at hmem
      exact of_decide_eq_true hout hmem
    rw [h.indegree w hw, Ne, remaining_eq_zero, not_forall] at hpositive
    obtain ⟨u, hu⟩ := hpositive
    rw [Classical.not_imp] at hu
    exact ⟨u, List.mem_filter.mpr ⟨hu.1.1, decide_eq_true hu.2⟩, hu.1⟩

/-! ### Runs -/

omit [DecidableEq α] in
theorem step_of_empty [DecidableEq α] (h : s.queue = []) : step next s = s := by
  rw [step, h]

theorem iterate_of_empty (h : s.queue = []) (k : Nat) : (step next)^[k] s = s := by
  induction k with
  | zero => rfl
  | succ k ih => rw [Function.iterate_succ_apply, step_of_empty h, ih]

/-- Two runs that come to an empty queue come to the same state. -/
theorem runs_agree {i j : Nat} (hi : ((step next)^[i] s).queue = [])
    (hj : ((step next)^[j] s).queue = []) : (step next)^[i] s = (step next)^[j] s := by
  have hle : ∀ {i j : Nat}, i ≤ j → ((step next)^[i] s).queue = [] →
      (step next)^[j] s = (step next)^[i] s := by
    intro i j hij hi
    obtain ⟨m, rfl⟩ := Nat.exists_eq_add_of_le hij
    rw [Nat.add_comm, Function.iterate_add_apply]
    exact iterate_of_empty hi m
  rcases Nat.le_total i j with hij | hij
  · exact (hle hij hi).symm
  · exact hle hij hj

/-- How many nodes are not done bounds the steps that are left. -/
theorem Inv.order_length (h : Inv nodes next s) :
    s.order.length + s.queue.length ≤ nodes.length := by
  have hsub := h.nodup.subperm (fun v hv => h.sub v hv)
  have hle := hsub.length_le
  rw [List.length_append] at hle
  exact hle

/-! ### Layers -/

/-- A path of `k` edges ends in the node. -/
inductive Path (E : α → α → Prop) : Nat → α → Prop where
  | start (v : α) : Path E 0 v
  | step {k : Nat} {u v : α} (h : Path E k u) (hedge : E u v) : Path E (k + 1) v

/-- The longest path that ends in the node has `k` edges. -/
def Longest (E : α → α → Prop) (v : α) (k : Nat) : Prop :=
  Path E k v ∧ ∀ m, Path E m v → m ≤ k

omit [DecidableEq α] in
theorem longest_zero (h : ∀ u, ¬ E u v) : Longest E v 0 := by
  refine ⟨.start v, ?_⟩
  intro m hm
  cases hm with
  | start => exact Nat.le_refl 0
  | step _ hedge => exact absurd hedge (h _)

omit [DecidableEq α] in
theorem longest_succ {k : Nat} (hu : Longest E u k) (huv : E u v)
    (hall : ∀ w, E w v → ∃ i ≤ k, Longest E w i) : Longest E v (k + 1) := by
  refine ⟨hu.1.step huv, ?_⟩
  intro m hm
  cases hm with
  | start => omega
  | step hpath hedge =>
    obtain ⟨i, hi, hlongest⟩ := hall _ hedge
    have hle := hlongest.2 _ hpath
    omega

omit [DecidableEq α] in
theorem Longest.lt {i j : Nat} (hu : Longest E u i) (hv : Longest E v j) (huv : E u v) :
    i < j :=
  hv.2 _ (hu.1.step huv)

/-- In layer `k`: `rest` is still to be done, `later` is queued for the next layer. -/
structure Layered (nodes : List α) (next : α → List α) (k : Nat) (rest later : List α)
    (s : State α) : Prop where
  inv : Inv nodes next s
  queue : s.queue = rest ++ later
  done : ∀ v ∈ s.order, ∃ i ≤ k, Longest (Edge nodes next) v i
  rest : ∀ v ∈ rest, Longest (Edge nodes next) v k
  later : ∀ v ∈ later, Longest (Edge nodes next) v (k + 1)

theorem Layered.step {k : Nat} {rest later : List α} (hnodup : nodes.Nodup)
    (hnext : ∀ u ∈ nodes, ∀ v ∈ next u, v ∈ nodes)
    (h : Layered nodes next k (u :: rest) later s) :
    ∃ new, Layered nodes next k rest (later ++ new) (Kahn.step next s) ∧
      (Kahn.step next s).order = s.order ++ [u] := by
  have hqueue : s.queue = u :: (rest ++ later) := h.queue
  obtain ⟨hinv, horder, new, hnew, hrow⟩ := h.inv.step_cons hnodup hnext hqueue
  have hu := h.rest u List.mem_cons_self
  have hdone : ∀ v ∈ (Kahn.step next s).order, ∃ i ≤ k, Longest (Edge nodes next) v i := by
    intro v hv
    rw [horder] at hv
    rcases List.mem_append.mp hv with hv | hv
    · exact h.done v hv
    · rw [List.mem_singleton.mp hv]
      exact ⟨k, Nat.le_refl k, hu⟩
  have hnode : u ∈ nodes := h.inv.sub u (by rw [hqueue]; simp)
  refine ⟨new, ⟨hinv, by rw [hnew, List.append_assoc], hdone,
    fun v hv => h.rest v (List.mem_cons_of_mem u hv), ?_⟩, horder⟩
  intro v hv
  rcases List.mem_append.mp hv with hv | hv
  · exact h.later v hv
  · apply longest_succ hu ⟨hnode, hrow v hv⟩
    intro w hw
    exact hdone w (hinv.preds (by rw [hnew]; exact List.mem_append_right _ hv) hw)

end Kahn
