import Canon.Algorithms.Scc
import Canon.Algorithms.TopologicalSort

/-! # Topological sorting with a cycle report

    `topological_sort_with_cycles` of `graph/cycle_report.rs`: Kahn's algorithm, and the
    components of the graph when it does not come to all nodes.

    * `topologicalSortWithCycles`: the function,
    * `Reports`: what a call is to return,
    * `hasCycle_iff`: which components have a cycle,
    * `cycle_report_iff`: the graphs for which the call returns that.
-/

namespace Canon.Algorithms.CycleReport

open Components Relation Scc TopologicalSort

/-! ### Model -/

/-- The subtraction that stops at zero. -/
def saturatingSub : Lower := fun d => some (d - 1)

variable (adj : List (List Nat))

/-- The node is one of its own neighbours. -/
def selfLoop (u : Nat) : Bool := (adj.getD u []).any fun v => v == u

def hasCycle (scc : List Nat) : Bool :=
  scc.length > 1 || scc.any (selfLoop adj)

def topologicalSortWithCycles : Option (List Nat × List (List Nat)) :=
  if adj.length = 0 then some ([], [])
  else do
    let order ← sorted adj true saturatingSub
    if order.length = adj.length then pure (order, [])
    else do
      let sccs ← kosarajuScc adj
      pure (order, sccs.filter (hasCycle adj))

/-- The edges between nodes in range. -/
abbrev Edge : Nat → Nat → Prop := TopologicalSort.Edge adj

/-- The node is on a cycle. -/
def Cyclic (x : Nat) : Prop := TransGen (Edge adj) x x

/-- The order of the nodes that no cycle reaches, and the components with a cycle. -/
structure Reports (adj : List (List Nat)) (order : List Nat) (cycles : List (List Nat)) :
    Prop where
  nodup : order.Nodup
  respects : ∀ u v, u ∈ order → v ∈ order → Edge adj u v → order.idxOf u < order.idxOf v
  mem_order : ∀ v, v ∈ order ↔ v < adj.length ∧ ¬ Kahn.FromCycle (Edge adj) v
  components : IsPartition (Edge adj) (fun x => x < adj.length ∧ Cyclic adj x) cycles
  cyclic : ∀ comp ∈ cycles, 1 < comp.length ∨ ∃ v ∈ comp, Edge adj v v
  nil_iff : cycles = [] ↔ order.length = adj.length

variable {adj : List (List Nat)} {order : List Nat} {sccs : List (List Nat)} {x : Nat}

/-! ### The order -/

theorem edge_range' {u v : Nat} (h : Edge adj u v) : u < adj.length ∧ v < adj.length :=
  ⟨List.mem_range.mp h.1, List.mem_range.mp (next_mem adj u h.1 v h.2)⟩

theorem cyclic_range (h : Cyclic adj x) : x < adj.length := by
  cases h with
  | single hstep => exact (edge_range' hstep).1
  | tail _ hstep => exact (edge_range' hstep).2

/-- What the loop returns. -/
theorem sorted_order (adj : List (List Nat)) :
    ∃ order, sorted adj true saturatingSub = some order ∧ order.Nodup ∧
      (∀ u v, u ∈ order → v ∈ order → Edge adj u v → order.idxOf u < order.idxOf v) ∧
      ∀ v, v ∈ order ↔ v < adj.length ∧ ¬ Kahn.FromCycle (Edge adj) v := by
  obtain ⟨k, hrun, hinv, hqueue⟩ := @sorted_spec adj true saturatingSub (fun _ => rfl) (.inl rfl)
  refine ⟨_, hrun, (List.nodup_append.mp hinv.nodup).1, ?_, ?_⟩
  · intro u v _ hv huv
    exact hinv.ordered.lt hv huv
  · intro v
    rw [Kahn.mem_order_iff hinv hqueue, List.mem_range]

/-- The order has all nodes exactly where there is no cycle. -/
theorem length_eq_iff (hnodup : order.Nodup)
    (hmem : ∀ v, v ∈ order ↔ v < adj.length ∧ ¬ Kahn.FromCycle (Edge adj) v) :
    order.length = adj.length ↔ ∀ x, ¬ Cyclic adj x := by
  have hsub : order ⊆ List.range adj.length := fun v hv => List.mem_range.mpr ((hmem v).mp hv).1
  have hsubperm := hnodup.subperm hsub
  constructor
  · intro hlength x hx
    have hperm := hsubperm.perm_of_length_le (by rw [List.length_range, hlength])
    have hin := hperm.mem_iff.mpr (List.mem_range.mpr (cyclic_range hx))
    exact ((hmem x).mp hin).2 ⟨x, hx, .refl⟩
  · intro hacyclic
    have hall : List.range adj.length ⊆ order := by
      intro v hv
      refine (hmem v).mpr ⟨List.mem_range.mp hv, ?_⟩
      intro ⟨c, hc, _⟩
      exact hacyclic c hc
    have hle := hsubperm.length_le
    have hge := (List.nodup_range.subperm hall).length_le
    rw [List.length_range] at hle hge
    omega

/-! ### The components -/

/-- In range the edges are those of the lists. -/
theorem edge_eq (hrange : Scc.InRange adj) : Scc.Edge adj = Edge adj := by
  funext u v
  apply propext
  constructor
  · intro h
    obtain ⟨hu, hv⟩ := edge_range hrange h
    exact ⟨List.mem_range.mpr hu, List.mem_filter.mpr ⟨h, decide_eq_true hv⟩⟩
  · intro h
    exact (List.mem_filter.mp h.2).1

theorem selfLoop_iff (hx : x < adj.length) : selfLoop adj x = true ↔ Edge adj x x := by
  rw [selfLoop, List.any_eq_true]
  constructor
  · intro ⟨v, hv, heq⟩
    rw [eq_of_beq heq] at hv
    exact ⟨List.mem_range.mpr hx, List.mem_filter.mpr ⟨hv, decide_eq_true hx⟩⟩
  · intro h
    exact ⟨x, (List.mem_filter.mp h.2).1, beq_self_eq_true x⟩

/-- A component has a cycle when it has two nodes or a node with an edge to itself, and then
    all its nodes are on cycles. -/
theorem hasCycle_iff {comp : List Nat} (hcomp : IsComponent (Edge adj) comp)
    (hnodup : comp.Nodup) (hrange : ∀ y ∈ comp, y < adj.length) (hx : x ∈ comp) :
    hasCycle adj comp = true ↔ Cyclic adj x := by
  rw [hasCycle, Bool.or_eq_true, decide_eq_true_iff, List.any_eq_true]
  constructor
  · intro h
    rcases h with hlength | ⟨v, hv, hloop⟩
    · obtain ⟨y, hy, hne⟩ : ∃ y ∈ comp, y ≠ x := by
        by_contra hnone
        have hall : comp ⊆ [x] := by
          intro y hy
          rw [List.mem_singleton]
          by_contra hyx
          exact hnone ⟨y, hy, hyx⟩
        have hle := (hnodup.subperm hall).length_le
        rw [List.length_singleton] at hle
        omega
      obtain ⟨hto, hback⟩ := (hcomp.mem_iff x hx y).mp hy
      rcases reflTransGen_iff_eq_or_transGen.mp hto with heq | hpath
      · exact absurd heq hne
      · exact hpath.trans_left hback
    · have hedge := (selfLoop_iff (hrange v hv)).mp hloop
      obtain ⟨hto, hback⟩ := (hcomp.mem_iff x hx v).mp hv
      exact (TransGen.tail' hto hedge).trans_left hback
  · intro h
    obtain ⟨y, hedge, hback⟩ := TransGen.head'_iff.mp h
    have hy : y ∈ comp := (hcomp.mem_iff x hx y).mpr ⟨.single hedge, hback⟩
    by_cases hyx : y = x
    · rw [hyx] at hedge
      exact .inr ⟨x, hx, (selfLoop_iff (hrange x hx)).mpr hedge⟩
    · left
      have hboth : [x, y] ⊆ comp := by
        intro z hz
        rcases List.mem_cons.mp hz with rfl | hz
        · exact hx
        · rw [List.mem_singleton.mp hz]
          exact hy
      have hpair : [x, y].Nodup := by
        rw [List.nodup_cons, List.mem_singleton]
        exact ⟨fun heq => hyx heq.symm, List.nodup_singleton y⟩
      exact (hpair.subperm hboth).length_le

/-- The components with a cycle are the partition of the nodes on cycles. -/
theorem cycles_partition
    (h : IsPartition (Edge adj) (fun x => x < adj.length) sccs) :
    IsPartition (Edge adj) (fun x => x < adj.length ∧ Cyclic adj x)
      (sccs.filter (hasCycle adj)) ∧
    ∀ comp ∈ sccs.filter (hasCycle adj), 1 < comp.length ∨ ∃ v ∈ comp, Edge adj v v := by
  have hnode : ∀ comp ∈ sccs, ∀ x ∈ comp, x < adj.length := fun comp hcomp x hx =>
    (h.mem_iff x).mp (List.mem_flatten.mpr ⟨comp, hcomp, hx⟩)
  have hnodup : ∀ comp ∈ sccs, comp.Nodup := fun comp hcomp =>
    (List.nodup_flatten.mp h.nodup).1 comp hcomp
  have hiff : ∀ comp ∈ sccs, ∀ x ∈ comp, (hasCycle adj comp = true ↔ Cyclic adj x) :=
    fun comp hcomp x hx =>
      hasCycle_iff (h.component comp hcomp) (hnodup comp hcomp) (hnode comp hcomp) hx
  refine ⟨⟨?_, ?_, ?_⟩, ?_⟩
  · exact h.nodup.sublist List.filter_sublist.flatten
  · intro x
    rw [List.mem_flatten]
    constructor
    · intro ⟨comp, hcomp, hx⟩
      obtain ⟨hmem, hcycle⟩ := List.mem_filter.mp hcomp
      exact ⟨hnode comp hmem x hx, (hiff comp hmem x hx).mp hcycle⟩
    · intro ⟨hlt, hcycle⟩
      obtain ⟨comp, hcomp, hx⟩ := List.mem_flatten.mp ((h.mem_iff x).mpr hlt)
      exact ⟨comp, List.mem_filter.mpr ⟨hcomp, (hiff comp hcomp x hx).mpr hcycle⟩, hx⟩
  · intro comp hcomp
    exact h.component comp (List.mem_of_mem_filter hcomp)
  · intro comp hcomp
    obtain ⟨hmem, hcycle⟩ := List.mem_filter.mp hcomp
    rw [hasCycle, Bool.or_eq_true, decide_eq_true_iff, List.any_eq_true] at hcycle
    rcases hcycle with hlength | ⟨v, hv, hloop⟩
    · exact .inl hlength
    · exact .inr ⟨v, hv, (selfLoop_iff (hnode comp hmem v hv)).mp hloop⟩

/-! ### Calls -/

theorem reports_empty (hn : adj.length = 0) : Reports adj [] [] := by
  have hnone : ∀ x, ¬ Cyclic adj x := by
    intro x hx
    have hlt := cyclic_range hx
    omega
  refine ⟨List.nodup_nil, fun u v hu => absurd hu List.not_mem_nil, ?_,
    ⟨List.nodup_nil, ?_, fun comp hcomp => absurd hcomp List.not_mem_nil⟩,
    fun comp hcomp => absurd hcomp List.not_mem_nil, ?_⟩
  · intro v
    simp [hn]
  · intro x
    simp [hnone x]
  · simp [hn]

/-- The call returns the order and the cycles exactly where every neighbour is in range, or
    the edges in range have no cycle: the search for the components has no guard. -/
theorem cycle_report_iff (adj : List (List Nat)) :
    (∃ order cycles, topologicalSortWithCycles adj = some (order, cycles) ∧
      Reports adj order cycles) ↔ Scc.InRange adj ∨ ∀ x, ¬ Cyclic adj x := by
  rw [topologicalSortWithCycles]
  by_cases hn : adj.length = 0
  · rw [if_pos hn]
    have hrange : Scc.InRange adj := by
      intro row hrow
      rw [List.eq_nil_of_length_eq_zero hn] at hrow
      exact absurd hrow List.not_mem_nil
    exact ⟨fun _ => .inl hrange, fun _ => ⟨[], [], rfl, reports_empty hn⟩⟩
  · obtain ⟨order, hsorted, hnodup, hrespects, hmem⟩ := sorted_order adj
    have hlength := length_eq_iff hnodup hmem
    rw [if_neg hn, hsorted, Option.bind_eq_bind, Option.bind_some]
    by_cases hfull : order.length = adj.length
    -- The order has all nodes, and there is no cycle to report.
    · have hacyclic := hlength.mp hfull
      rw [if_pos hfull]
      refine ⟨fun _ => .inr hacyclic, fun _ => ⟨order, [], rfl, hnodup, hrespects, hmem,
        ⟨List.nodup_nil, ?_, fun comp hcomp => absurd hcomp List.not_mem_nil⟩,
        fun comp hcomp => absurd hcomp List.not_mem_nil, ?_⟩⟩
      · intro x
        simp [hacyclic x]
      · simp [hfull]
    · have hcyclic : ¬ ∀ x, ¬ Cyclic adj x := fun hacyclic => hfull (hlength.mpr hacyclic)
      rw [if_neg hfull]
      constructor
      · intro ⟨order', cycles, hrun, _⟩
        obtain ⟨sccs, hsccs, -⟩ := Option.bind_eq_some_iff.mp hrun
        exact .inl (inRange_of_kosarajuScc hsccs)
      · intro hor
        have hrange := hor.resolve_right hcyclic
        obtain ⟨sccs, hsccs, hpartition, -⟩ := kosarajuScc_partition hrange
        rw [edge_eq hrange] at hpartition
        obtain ⟨hcycles, hwhy⟩ := cycles_partition hpartition
        refine ⟨order, sccs.filter (hasCycle adj), by rw [hsccs]; rfl, hnodup, hrespects, hmem,
          hcycles, hwhy, ?_⟩
        constructor
        · intro hnil
          refine absurd ?_ hcyclic
          intro x hx
          have hin := (hcycles.mem_iff x).mpr ⟨cyclic_range hx, hx⟩
          rw [hnil] at hin
          exact List.not_mem_nil hin
        · exact fun h => absurd h hfull

/-- A node with an edge to itself and one that leads out of the graph. -/
theorem dangling_neighbour_panics :
    ¬ ∀ adj : List (List Nat), ∃ order cycles,
      topologicalSortWithCycles adj = some (order, cycles) ∧ Reports adj order cycles := by
  intro h
  obtain ⟨order, cycles, hrun, -⟩ := h [[0, 5]]
  have hnone : topologicalSortWithCycles [[0, 5]] = none := by decide
  rw [hnone] at hrun
  cases hrun

end Canon.Algorithms.CycleReport
