import Mathlib.Data.UInt
import Canon.Algorithms.Scc
import Canon.Lib.Maps

/-! # Dependency cycles

    `compute_scc` of the analysis tools: Tarjan's algorithm over the edges of a call graph.
    A node is on the stack until its component is complete; its low link is the lowest index
    of a node on the stack that is known to be reached from it.

    * `strongconnect`, `computeScc`: the algorithm,
    * `Inv`: what holds of the stack, the indices and the finished components,
    * `Connected`: what a call has done; `strongconnect_spec` for every call,
    * `computeScc_partition`, `scc_algorithms_agree`: the result, and that of `kosarajuScc`.
-/

namespace Canon.Analysis

open Components Relation Canon.Algorithms.Scc

/-! ### Model -/

abbrev CallGraph := List (UInt32 × UInt32)

/-- The stack begins with its top.  The index counts the nodes that have one, so it is
    below `2 ^ 32` whenever it is given out. -/
structure Tarjan where
  index : Nat
  stack : List UInt32
  indices : FMap UInt32 Nat
  lowlink : FMap UInt32 Nat
  onStack : UInt32 → Bool
  result : List (List UInt32)

namespace Tarjan

def new : Tarjan where
  index := 0
  stack := []
  indices := FMap.empty
  lowlink := FMap.empty
  onStack := fun _ => false
  result := []

/-- The index is a `u32`; it overflows only behind the last of all ids, where a release
    build goes on with 0 and reads it no more. -/
def enter (s : Tarjan) (v : UInt32) : Tarjan :=
  { s with
    indices := s.indices.insert v s.index
    lowlink := s.lowlink.insert v s.index
    index := s.index + 1
    stack := v :: s.stack
    onStack := Function.update s.onStack v true }

def lower (s : Tarjan) (v : UInt32) (low : Nat) : Tarjan :=
  { s with lowlink := s.lowlink.insert v low }

/-- The loop over the stack.  Nothing when it is empty, where the code loops for ever. -/
def popLoop (v : UInt32) :
    List UInt32 → Tarjan → List UInt32 → Option Tarjan
  | [], _, _ => none
  | w :: stack, s, scc =>
    let s := { s with stack := stack, onStack := Function.update s.onStack w false }
    let scc := scc ++ [w]
    if w = v then some { s with result := s.result ++ [scc] } else popLoop v stack s scc

end Tarjan

/-- An edge in the loop of a node.  A missing index or low link is a panic of the code. -/
def visitEdge (connect : UInt32 → Tarjan → Option Tarjan) (v : UInt32) (s : Tarjan)
    (e : UInt32 × UInt32) : Option Tarjan :=
  if e.1 ≠ v then some s
  else if (s.indices e.2).isNone then do
    let s ← connect e.2 s
    let lowV ← s.lowlink v
    let lowDst ← s.lowlink e.2
    pure (s.lower v (min lowV lowDst))
  else if s.onStack e.2 then do
    let lowV ← s.lowlink v
    let idxDst ← s.indices e.2
    pure (s.lower v (min lowV idxDst))
  else some s

/-- Nothing also when the fuel is spent. -/
def strongconnect (callgraph : CallGraph) : Nat → UInt32 → Tarjan → Option Tarjan
  | 0, _, _ => none
  | fuel + 1, v, s => do
    let s ← callgraph.foldlM (visitEdge (strongconnect callgraph fuel) v) (s.enter v)
    if s.indices v = s.lowlink v then s.popLoop v s.stack [] else pure s

/-- The nodes come in the order in which the set of the code gives them. -/
def computeScc (nodes : List UInt32) (callgraph : CallGraph) : Option (List (List UInt32)) := do
  let s ← nodes.foldlM
    (fun s node =>
      if (s.indices node).isNone then strongconnect callgraph nodes.length node s else some s)
    Tarjan.new
  pure s.result

/-- The nodes of the set. -/
def Mentioned (callgraph : CallGraph) (x : UInt32) : Prop :=
  ∃ e ∈ callgraph, x = e.1 ∨ x = e.2

/-- An order of the set: every node once. -/
structure Enumerates (nodes : List UInt32) (callgraph : CallGraph) : Prop where
  nodup : nodes.Nodup
  mem_iff : ∀ x, x ∈ nodes ↔ Mentioned callgraph x

def Calls (callgraph : CallGraph) (x y : UInt32) : Prop := (x, y) ∈ callgraph

/-! ### Invariant -/

/-- The index of a node, where it has one. -/
def idx (s : Tarjan) (x : UInt32) : Nat := (s.indices x).getD 0

def Visited (s : Tarjan) (x : UInt32) : Prop := (s.indices x).isSome = true

/-- The nodes `gray` are those of the calls that are still open. -/
structure Inv (E : UInt32 → UInt32 → Prop) (nodes gray : List UInt32) (s : Tarjan) : Prop where
  known : ∀ x, Visited s x → x ∈ nodes
  visited : ∀ x, Visited s x ↔ x ∈ s.stack ∨ x ∈ s.result.flatten
  bound : ∀ x, Visited s x → idx s x < s.index
  sorted : s.stack.Pairwise fun x y => idx s y < idx s x
  onStack : ∀ x, s.onStack x = true ↔ x ∈ s.stack
  disjoint : ∀ x ∈ s.stack, x ∉ s.result.flatten
  opened : ∀ x ∈ gray, x ∈ s.stack
  /-- A node of the stack reaches those above it, -/
  up : ∀ x ∈ s.stack, ∀ y ∈ s.stack, idx s x ≤ idx s y → ReflTransGen E x y
  /-- and an open one below it. -/
  down : ∀ y ∈ s.stack, ∃ g ∈ gray, idx s g ≤ idx s y ∧ ReflTransGen E y g
  closed : ∀ x, Visited s x → x ∉ gray → ∀ y, E x y → Visited s y
  nodup : s.result.flatten.Nodup
  component : ∀ comp ∈ s.result, IsComponent E comp
  count : s.index = s.stack.length + s.result.flatten.length

/-- A call from `s` for `v` led to `s'`; it left `new` on the stack and the low link `low`. -/
structure Connected (E : UInt32 → UInt32 → Prop) (nodes gray : List UInt32) (v : UInt32)
    (s s' : Tarjan) (new : List UInt32) (low : Nat) : Prop where
  inv : Inv E nodes gray s'
  keeps : ∀ x i, s.indices x = some i → s'.indices x = some i
  lowKept : ∀ x, Visited s x → s'.lowlink x = s.lowlink x
  self : s'.indices v = some s.index
  stack : s'.stack = new ++ s.stack
  link : s'.lowlink v = some low
  /-- The low link is the index of the node when its component was complete, -/
  popped : v ∉ new → low = s.index
  /-- and otherwise that of a node it reaches. -/
  reached : v ∈ new → ∃ y ∈ s.stack, idx s' y = low ∧ ReflTransGen E v y
  bounds : ∀ x ∈ new, ∀ y ∈ s.stack, E x y → low ≤ idx s' y

/-- The loop of `v`, which began in `s` and has come past the edges `past`. -/
structure Scanned (E : UInt32 → UInt32 → Prop) (nodes gray : List UInt32) (v : UInt32)
    (s t : Tarjan) (past : CallGraph) (new : List UInt32) (low : Nat) : Prop where
  inv : Inv E nodes (v :: gray) t
  keeps : ∀ x i, s.indices x = some i → t.indices x = some i
  lowKept : ∀ x, Visited s x → t.lowlink x = s.lowlink x
  self : t.indices v = some s.index
  stack : t.stack = new ++ v :: s.stack
  link : t.lowlink v = some low
  low_le : low ≤ s.index
  reached : ∃ y ∈ t.stack, idx t y = low ∧ ReflTransGen E v y
  bounds : ∀ x ∈ new, ∀ y ∈ s.stack, E x y → low ≤ idx t y
  examined : ∀ d, (v, d) ∈ past → Visited t d ∧ (d ∈ s.stack → low ≤ idx t d)

variable {E : UInt32 → UInt32 → Prop} {nodes gray : List UInt32} {v : UInt32} {s t s' : Tarjan}
  {new : List UInt32} {low : Nat} {past : CallGraph}

theorem idx_of_eq {x : UInt32} {i : Nat} (h : s.indices x = some i) : idx s x = i := by
  rw [idx, h]
  rfl

theorem visited_iff {x : UInt32} : Visited s x ↔ s.indices x = some (idx s x) := by
  rw [Visited, idx]
  cases s.indices x with
  | none => simp
  | some i => simp

theorem visited_of_keeps (h : ∀ x i, s.indices x = some i → t.indices x = some i) {x : UInt32}
    (hx : Visited s x) : Visited t x ∧ idx t x = idx s x := by
  have hsame := h x _ (visited_iff.mp hx)
  refine ⟨?_, idx_of_eq hsame⟩
  rw [Visited, hsame]
  rfl

theorem Inv.visited_of_stack (h : Inv E nodes gray s) {x : UInt32} (hx : x ∈ s.stack) :
    Visited s x :=
  (h.visited x).mpr (.inl hx)

/-- The part of the stack above a node and the part below it. -/
theorem Inv.around (h : Inv E nodes gray s) {above below : List UInt32}
    (hstack : s.stack = above ++ v :: below) :
    (∀ x ∈ above, idx s v < idx s x) ∧ ∀ x ∈ below, idx s x < idx s v := by
  have hsorted := h.sorted
  rw [hstack] at hsorted
  obtain ⟨-, hrest, hcross⟩ := List.pairwise_append.mp hsorted
  exact ⟨fun x hx => hcross x hx v List.mem_cons_self, (List.pairwise_cons.mp hrest).1⟩

/-- The low links are no part of the invariant. -/
theorem Inv.lower (h : Inv E nodes gray s) (x : UInt32) (low : Nat) :
    Inv E nodes gray (s.lower x low) :=
  ⟨h.known, h.visited, h.bound, h.sorted, h.onStack, h.disjoint, h.opened, h.up, h.down, h.closed,
    h.nodup, h.component, h.count⟩

/-- There are no more indices than nodes. -/
theorem Inv.index_le (h : Inv E nodes gray s) : s.index ≤ 2 ^ 32 := by
  have hstack : s.stack.Nodup := by
    apply h.sorted.imp
    intro x y hxy heq
    rw [heq] at hxy
    omega
  have hall : (s.stack ++ s.result.flatten).Nodup :=
    hstack.append h.nodup fun x hx hx' => h.disjoint x hx hx'
  have hlt : ∀ x ∈ (s.stack ++ s.result.flatten).map UInt32.toNat, x ∈ List.range (2 ^ 32) := by
    intro n hn
    obtain ⟨x, -, rfl⟩ := List.mem_map.mp hn
    exact List.mem_range.mpr x.toNat_lt
  have hinj : ((s.stack ++ s.result.flatten).map UInt32.toNat).Nodup :=
    hall.map fun x y hxy => UInt32.toNat_inj.mp hxy
  have hle := (hinj.subperm hlt).length_le
  rw [List.length_map, List.length_append, List.length_range] at hle
  rw [h.count]
  exact hle

/-! ### Entering a node -/

theorem enter_indices_of_ne {x : UInt32} (h : x ≠ v) : (s.enter v).indices x = s.indices x :=
  FMap.insert_of_ne _ _ h

theorem enter_indices_self : (s.enter v).indices v = some s.index := FMap.insert_self _ _ _

/-- Entering a new id leaves the indices of the others as they are. -/
theorem idx_enter_of_visited (hv : s.indices v = none) {x : UInt32} (hx : Visited s x) :
    idx (s.enter v) x = idx s x := by
  have hne : x ≠ v := by
    intro heq
    rw [heq, Visited, hv] at hx
    cases hx
  rw [idx, enter_indices_of_ne hne]
  rfl

theorem visited_enter (x : UInt32) : Visited (s.enter v) x ↔ x = v ∨ Visited s x := by
  by_cases hx : x = v
  · rw [hx, Visited, enter_indices_self]
    simp
  · rw [Visited, enter_indices_of_ne hx]
    simp [hx, Visited]

theorem inv_enter (h : Inv E nodes gray s) (hmem : v ∈ nodes) (hv : s.indices v = none)
    (hreach : ∀ g ∈ gray, ReflTransGen E g v) : Inv E nodes (v :: gray) (s.enter v) := by
  have hnew : ¬ Visited s v := by
    rw [Visited, hv]
    decide
  have hold : ∀ x, Visited s x → idx (s.enter v) x = idx s x := fun _ => idx_enter_of_visited hv
  have hself : idx (s.enter v) v = s.index := idx_of_eq enter_indices_self
  have hvisited : ∀ x, Visited (s.enter v) x ↔ x = v ∨ Visited s x := visited_enter
  have hto : ∀ x ∈ s.stack, ReflTransGen E x v := by
    intro x hx
    obtain ⟨g, hg, -, hpath⟩ := h.down x hx
    exact hpath.trans (hreach g hg)
  refine ⟨?_, ?_, ?_, ?_, ?_, ?_, ?_, ?_, ?_, ?_, h.nodup, h.component, ?_⟩
  · intro x hx
    rcases (hvisited x).mp hx with rfl | hx
    · exact hmem
    · exact h.known x hx
  · intro x
    rw [hvisited, h.visited]
    show _ ↔ x ∈ v :: s.stack ∨ _
    rw [List.mem_cons, or_assoc]
    rfl
  · intro x hx
    show _ < s.index + 1
    rcases (hvisited x).mp hx with rfl | hx
    · omega
    · have hbound := h.bound x hx
      rw [hold x hx]
      omega
  · show (v :: s.stack).Pairwise _
    refine List.pairwise_cons.mpr ⟨?_, ?_⟩
    · intro x hx
      have hx := h.visited_of_stack hx
      rw [hself, hold x hx]
      exact h.bound x hx
    · apply h.sorted.imp_of_mem
      intro x y hx hy hxy
      rw [hold x (h.visited_of_stack hx), hold y (h.visited_of_stack hy)]
      exact hxy
  · intro x
    show Function.update s.onStack v true x = true ↔ x ∈ v :: s.stack
    rw [List.mem_cons]
    by_cases hx : x = v
    · rw [hx, Function.update_self]
      simp
    · rw [Function.update_of_ne hx, h.onStack]
      simp [hx]
  · intro x hx hdone
    have hx' := (h.visited x).mpr (.inr hdone)
    rcases List.mem_cons.mp hx with rfl | hx
    · exact hnew hx'
    · exact h.disjoint x hx hdone
  · intro x hx
    show x ∈ v :: s.stack
    rcases List.mem_cons.mp hx with rfl | hx
    · exact List.mem_cons_self
    · exact List.mem_cons_of_mem v (h.opened x hx)
  · intro x hx y hy hle
    by_cases hxv : x = v
    · by_cases hyv : y = v
      · rw [hxv, hyv]
      -- The index of `v` is the highest.
      · have hy := h.visited_of_stack ((List.mem_cons.mp hy).resolve_left hyv)
        have hbound := h.bound y hy
        rw [hxv, hself, hold y hy] at hle
        omega
    · have hx := (List.mem_cons.mp hx).resolve_left hxv
      by_cases hyv : y = v
      · rw [hyv]
        exact hto x hx
      · have hy := (List.mem_cons.mp hy).resolve_left hyv
        rw [hold x (h.visited_of_stack hx), hold y (h.visited_of_stack hy)] at hle
        exact h.up x hx y hy hle
  · intro y hy
    rcases List.mem_cons.mp hy with rfl | hy
    · exact ⟨y, List.mem_cons_self, Nat.le_refl _, .refl⟩
    · obtain ⟨g, hg, hle, hpath⟩ := h.down y hy
      refine ⟨g, List.mem_cons_of_mem v hg, ?_, hpath⟩
      rw [hold g (h.visited_of_stack (h.opened g hg)), hold y (h.visited_of_stack hy)]
      exact hle
  · intro x hx hgray y hedge
    rw [List.mem_cons, not_or] at hgray
    exact (hvisited y).mpr (.inr (h.closed x (((hvisited x).mp hx).resolve_left hgray.1)
      hgray.2 y hedge))
  · show s.index + 1 = (v :: s.stack).length + s.result.flatten.length
    rw [List.length_cons, h.count]
    omega

theorem scanned_enter (h : Inv E nodes gray s) (hmem : v ∈ nodes) (hv : s.indices v = none)
    (hreach : ∀ g ∈ gray, ReflTransGen E g v) :
    Scanned E nodes gray v s (s.enter v) [] [] s.index where
  inv := inv_enter h hmem hv hreach
  keeps := by
    intro x i hx
    have hne : x ≠ v := by
      intro heq
      rw [heq, hv] at hx
      cases hx
    rw [enter_indices_of_ne hne]
    exact hx
  lowKept := by
    intro x hx
    have hne : x ≠ v := by
      intro heq
      rw [heq, Visited, hv] at hx
      cases hx
    exact FMap.insert_of_ne _ _ hne
  self := enter_indices_self
  stack := rfl
  link := FMap.insert_self _ _ _
  low_le := Nat.le_refl _
  reached := ⟨v, List.mem_cons_self, idx_of_eq enter_indices_self, .refl⟩
  bounds := fun x hx => absurd hx List.not_mem_nil
  examined := fun d hd => absurd hd List.not_mem_nil

/-! ### The edges of a node -/

/-- An unvisited neighbour: its call is done first. -/
theorem Scanned.tree {d : UInt32} {t' : Tarjan} {above : List UInt32} {low' : Nat}
    (h : Scanned E nodes gray v s t past new low) (hv : s.indices v = none) (hedge : E v d)
    (hd : t.indices d = none) (h' : Connected E nodes (v :: gray) d t t' above low') :
    Scanned E nodes gray v s (t'.lower v (min low low')) (past ++ [(v, d)]) (above ++ new)
      (min low low') := by
  have hkeep : ∀ {x}, Visited t x → Visited t' x ∧ idx t' x = idx t x := fun hx =>
    visited_of_keeps h'.keeps hx
  have hbelow : ∀ y ∈ s.stack, y ∈ t.stack := by
    intro y hy
    rw [h.stack]
    exact List.mem_append_right new (List.mem_cons_of_mem v hy)
  have hsame : ∀ y ∈ t.stack, idx t' y = idx t y := fun y hy =>
    (hkeep (h.inv.visited_of_stack hy)).2
  refine ⟨h'.inv.lower v _, ?_, ?_, ?_, ?_, FMap.insert_self _ _ _, ?_, ?_, ?_, ?_⟩
  · intro x i hx
    exact h'.keeps x i (h.keeps x i hx)
  · intro x hx
    have hne : x ≠ v := by
      intro heq
      rw [heq, Visited, hv] at hx
      cases hx
    show (t'.lowlink.insert v _) x = _
    rw [FMap.insert_of_ne _ _ hne, h'.lowKept x (visited_of_keeps h.keeps hx).1, h.lowKept x hx]
  · exact h'.keeps v _ h.self
  · show t'.stack = _
    rw [h'.stack, h.stack, List.append_assoc]
  · exact Nat.le_trans (Nat.min_le_left _ _) h.low_le
  · show ∃ y ∈ t'.stack, idx t' y = _ ∧ _
    rw [h'.stack]
    by_cases hle : low ≤ low'
    · obtain ⟨y, hy, hidx, hpath⟩ := h.reached
      refine ⟨y, List.mem_append_right above hy, ?_, hpath⟩
      rw [hsame y hy, hidx]
      omega
    -- A lower link is that of a node on the stack, which `v` reaches by the edge.
    · have hstays : d ∈ above := by
        by_contra hgone
        have hpopped := h'.popped hgone
        have hbound := h.inv.bound v (visited_iff.mpr (by rw [h.self, idx_of_eq h.self]))
        have hlow := h.low_le
        rw [idx_of_eq h.self] at hbound
        omega
      obtain ⟨y, hy, hidx, hpath⟩ := h'.reached hstays
      refine ⟨y, List.mem_append_right above hy, ?_, .head hedge hpath⟩
      omega
  · intro x hx y hy hxy
    show _ ≤ idx t' y
    rcases List.mem_append.mp hx with hx | hx
    · exact Nat.le_trans (Nat.min_le_right _ _) (h'.bounds x hx y (hbelow y hy) hxy)
    · rw [hsame y (hbelow y hy)]
      exact Nat.le_trans (Nat.min_le_left _ _) (h.bounds x hx y hy hxy)
  · intro c hc
    rcases List.mem_append.mp hc with hc | hc
    · obtain ⟨hvisited, hlow⟩ := h.examined c hc
      refine ⟨(hkeep hvisited).1, ?_⟩
      intro hmem
      show _ ≤ idx t' c
      rw [hsame c (hbelow c hmem)]
      exact Nat.le_trans (Nat.min_le_left _ _) (hlow hmem)
    · rw [(Prod.mk.inj (List.mem_singleton.mp hc)).2]
      constructor
      · show (t'.indices d).isSome = true
        rw [h'.self]
        rfl
      · intro hmem
        have hvisited := h.inv.visited_of_stack (hbelow d hmem)
        rw [Visited, hd] at hvisited
        cases hvisited

/-- A neighbour on the stack. -/
theorem Scanned.back {d : UInt32} (h : Scanned E nodes gray v s t past new low)
    (hv : s.indices v = none) (hedge : E v d) (hd : d ∈ t.stack) :
    Scanned E nodes gray v s (t.lower v (min low (idx t d))) (past ++ [(v, d)]) new
      (min low (idx t d)) := by
  refine ⟨h.inv.lower v _, h.keeps, ?_, h.self, h.stack, FMap.insert_self _ _ _, ?_, ?_, ?_, ?_⟩
  · intro x hx
    have hne : x ≠ v := by
      intro heq
      rw [heq, Visited, hv] at hx
      cases hx
    show (t.lowlink.insert v _) x = _
    rw [FMap.insert_of_ne _ _ hne, h.lowKept x hx]
  · exact Nat.le_trans (Nat.min_le_left _ _) h.low_le
  · show ∃ y ∈ t.stack, idx t y = _ ∧ _
    by_cases hle : low ≤ idx t d
    · obtain ⟨y, hy, hidx, hpath⟩ := h.reached
      exact ⟨y, hy, by omega, hpath⟩
    · exact ⟨d, hd, by omega, .single hedge⟩
  · intro x hx y hy hxy
    exact Nat.le_trans (Nat.min_le_left _ _) (h.bounds x hx y hy hxy)
  · intro c hc
    rcases List.mem_append.mp hc with hc | hc
    · obtain ⟨hvisited, hlow⟩ := h.examined c hc
      exact ⟨hvisited, fun hmem => Nat.le_trans (Nat.min_le_left _ _) (hlow hmem)⟩
    · rw [(Prod.mk.inj (List.mem_singleton.mp hc)).2]
      exact ⟨h.inv.visited_of_stack hd, fun _ => Nat.min_le_right _ _⟩

/-- An edge that changes nothing. -/
theorem Scanned.pass {e : UInt32 × UInt32} (h : Scanned E nodes gray v s t past new low)
    (he : e.1 = v → Visited t e.2 ∧ e.2 ∉ t.stack) :
    Scanned E nodes gray v s t (past ++ [e]) new low := by
  refine { h with examined := ?_ }
  intro c hc
  rcases List.mem_append.mp hc with hc | hc
  · exact h.examined c hc
  · have heq := List.mem_singleton.mp hc
    obtain ⟨hvisited, hout⟩ := he (by rw [← heq])
    rw [← heq] at hvisited hout
    refine ⟨hvisited, ?_⟩
    intro hmem
    apply absurd _ hout
    rw [h.stack]
    exact List.mem_append_right new (List.mem_cons_of_mem v hmem)

/-! ### The end of a call -/

/-- The loop over the stack takes the node and what is above it. -/
theorem popLoop_eq {above below : List UInt32} (hv : v ∉ above) (t : Tarjan)
    (scc : List UInt32) : ∃ on, Tarjan.popLoop v (above ++ v :: below) t scc =
        some { t with stack := below, onStack := on, result := t.result ++ [scc ++ above ++ [v]] } ∧
      ∀ x, on x = true ↔ t.onStack x = true ∧ x ∉ above ∧ x ≠ v := by
  induction above generalizing t scc with
  | nil =>
    refine ⟨Function.update t.onStack v false, ?_, ?_⟩
    · rw [List.nil_append, Tarjan.popLoop, if_pos rfl, List.append_nil]
    · intro x
      by_cases hx : x = v
      · simp [hx]
      · simp [hx]
  | cons w above ih =>
    rw [List.mem_cons, not_or] at hv
    obtain ⟨on, hrun, hon⟩ := ih hv.2
      { t with stack := above ++ v :: below, onStack := Function.update t.onStack w false }
      (scc ++ [w])
    refine ⟨on, ?_, ?_⟩
    · rw [List.cons_append, Tarjan.popLoop, if_neg (Ne.symm hv.1), hrun, List.append_assoc scc]
      rfl
    · intro x
      rw [hon]
      show Function.update t.onStack w false x = true ∧ _ ↔ _
      by_cases hx : x = w
      · simp [hx]
      · simp [hx]

section Finish

variable {callgraph : CallGraph}

/-- Where an edge of the finished part leads. -/
theorem Scanned.leads (h : Scanned E nodes gray v s t past new low)
    (hall : ∀ d, E v d → (v, d) ∈ past) (hgray : ∀ g ∈ gray, g ∈ s.stack) {x y : UInt32}
    (hx : x ∈ new ++ [v]) (hxy : E x y) :
    Visited t y ∧ (y ∈ s.stack → low ≤ idx t y) := by
  rcases List.mem_append.mp hx with hx | hx
  · have hstack : x ∈ t.stack := by
      rw [h.stack]
      exact List.mem_append_left _ hx
    obtain ⟨habove, hbelow⟩ := h.inv.around h.stack
    have hopen : x ∉ v :: gray := by
      rw [List.mem_cons, not_or]
      have hhigher := habove x hx
      constructor
      · intro heq
        rw [heq] at hhigher
        omega
      · intro hmem
        have hlower := hbelow x (hgray x hmem)
        omega
    exact ⟨h.inv.closed x (h.inv.visited_of_stack hstack) hopen y hxy,
      fun hy => h.bounds x hx y hy hxy⟩
  · rw [List.mem_singleton.mp hx] at hxy
    exact h.examined y (hall y hxy)

/-- A node with a lower link stays on the stack. -/
theorem Scanned.stays (h : Scanned E nodes gray v s t past new low)
    (hall : ∀ d, E v d → (v, d) ∈ past) (hgray : ∀ g ∈ gray, g ∈ s.stack)
    (hlow : low ≠ s.index) : Connected E nodes gray v s t (new ++ [v]) low := by
  have hself : idx t v = s.index := idx_of_eq h.self
  obtain ⟨habove, hbelow⟩ := h.inv.around h.stack
  have hle := h.low_le
  -- The node with the low link is below `v`.
  obtain ⟨low_node, hmem, hidx, hpath⟩ := h.reached
  have hlow_node : low_node ∈ s.stack := by
    rw [h.stack, List.mem_append, List.mem_cons] at hmem
    rcases hmem with hmem | hmem | hmem
    · have hhigher := habove low_node hmem
      omega
    · rw [hmem] at hidx
      omega
    · exact hmem
  have hstack : t.stack = (new ++ [v]) ++ s.stack := by
    rw [h.stack, List.append_assoc]
    rfl
  have hsub : ∀ x ∈ s.stack, x ∈ t.stack := by
    intro x hx
    rw [hstack]
    exact List.mem_append_right _ hx
  refine ⟨?_, h.keeps, h.lowKept, h.self, hstack, h.link, ?_, ?_, ?_⟩
  · refine { h.inv with opened := ?_, down := ?_, closed := ?_ }
    · exact fun g hg => hsub g (hgray g hg)
    · intro y hy
      obtain ⟨g, hg, hgle, hyg⟩ := h.inv.down y hy
      rcases List.mem_cons.mp hg with rfl | hg
      · obtain ⟨g', hg', hgle', hpath'⟩ := h.inv.down low_node (hsub low_node hlow_node)
        have hne : g' ≠ g := by
          intro heq
          rw [heq] at hgle'
          omega
        exact ⟨g', (List.mem_cons.mp hg').resolve_left hne, by omega,
          hyg.trans (hpath.trans hpath')⟩
      · exact ⟨g, hg, hgle, hyg⟩
    · intro x hx hout y hxy
      by_cases hxv : x = v
      · rw [hxv] at hxy
        exact (h.examined y (hall y hxy)).1
      · refine h.inv.closed x hx ?_ y hxy
        rw [List.mem_cons, not_or]
        exact ⟨hxv, hout⟩
  · intro hgone
    exact absurd (List.mem_append_right new (List.mem_singleton_self v)) hgone
  · exact fun _ => ⟨low_node, hlow_node, hidx, hpath⟩
  · exact fun x hx y hy hxy => (h.leads hall hgray hx hxy).2 hy

/-- What is above a node whose low link is its own index is its component. -/
theorem Scanned.component (h : Scanned E nodes gray v s t past new low)
    (hall : ∀ d, E v d → (v, d) ∈ past) (hgray : ∀ g ∈ gray, g ∈ s.stack)
    (hreach : ∀ g ∈ gray, ReflTransGen E g v) (hlow : low = s.index) (y : UInt32) :
    y ∈ new ++ [v] ↔ Mutual E v y := by
  have hself : idx t v = s.index := idx_of_eq h.self
  obtain ⟨habove, hbelow⟩ := h.inv.around h.stack
  have hmem : ∀ x, x ∈ new ++ [v] → x ∈ t.stack := by
    intro x hx
    rw [h.stack, List.mem_append, List.mem_cons]
    rcases List.mem_append.mp hx with hx | hx
    · exact .inl hx
    · exact .inr (.inl (List.mem_singleton.mp hx))
  have hv : v ∈ t.stack := hmem v (List.mem_append_right new (List.mem_singleton_self v))
  constructor
  · intro hy
    have hle : idx t v ≤ idx t y := by
      rcases List.mem_append.mp hy with hy | hy
      · exact Nat.le_of_lt (habove y hy)
      · rw [List.mem_singleton.mp hy]
    refine ⟨h.inv.up v hv y (hmem y hy) hle, ?_⟩
    obtain ⟨g, hg, -, hpath⟩ := h.inv.down y (hmem y hy)
    rcases List.mem_cons.mp hg with rfl | hg
    · exact hpath
    · exact hpath.trans (hreach g hg)
  · intro ⟨hto, hback⟩
    induction hto with
    | refl => exact List.mem_append_right new (List.mem_singleton_self v)
    | @tail x y hvx hxy ih =>
      have hx := ih (.head hxy hback)
      obtain ⟨hvisited, hbound⟩ := h.leads hall hgray hx hxy
      rcases (h.inv.visited y).mp hvisited with hy | hy
      · rw [h.stack, List.mem_append, List.mem_cons] at hy
        rcases hy with hy | hy | hy
        · exact List.mem_append_left [v] hy
        · rw [hy]
          exact List.mem_append_right new (List.mem_singleton_self v)
        -- No edge leads below `v`.
        · have hlower := hbelow y hy
          have hbound := hbound hy
          omega
      -- A finished component that holds `y` would hold `v`.
      · obtain ⟨comp, hcomp, hy⟩ := List.mem_flatten.mp hy
        have hvcomp := ((h.inv.component comp hcomp).mem_iff y hy v).mpr
          ⟨hback, hvx.tail hxy⟩
        exact absurd (List.mem_flatten.mpr ⟨comp, hcomp, hvcomp⟩) (h.inv.disjoint v hv)

theorem Scanned.pops (h : Scanned E nodes gray v s t past new low) (hs : Inv E nodes gray s)
    (hall : ∀ d, E v d → (v, d) ∈ past) (hreach : ∀ g ∈ gray, ReflTransGen E g v)
    (hlow : low = s.index) :
    ∃ s', t.popLoop v t.stack [] = some s' ∧ Connected E nodes gray v s s' [] low := by
  obtain ⟨habove, hbelow⟩ := h.inv.around h.stack
  have hnot : v ∉ new := by
    intro hmem
    have hhigher := habove v hmem
    omega
  have hout : ∀ x ∈ s.stack, x ∉ new ∧ x ≠ v := by
    intro x hx
    have hlower := hbelow x hx
    constructor
    · intro hmem
      have hhigher := habove x hmem
      omega
    · intro heq
      rw [heq] at hlower
      omega
  have hmem : ∀ x, x ∈ t.stack ↔ x ∈ new ++ [v] ∨ x ∈ s.stack := by
    intro x
    rw [h.stack, List.mem_append, List.mem_append, List.mem_cons, List.mem_singleton, or_assoc]
  have hcomp := h.component hall hs.opened hreach hlow
  obtain ⟨on, hrun, hon⟩ := @popLoop_eq v new s.stack hnot t []
  rw [List.nil_append] at hrun
  refine ⟨_, by rw [h.stack]; exact hrun, ?_⟩
  have hflatten : (t.result ++ [new ++ [v]]).flatten = t.result.flatten ++ (new ++ [v]) := by
    rw [List.flatten_append, List.flatten_singleton]
  have hnodup : (new ++ [v]).Nodup := by
    have hsorted := h.inv.sorted
    rw [h.stack, show new ++ v :: s.stack = (new ++ [v]) ++ s.stack by simp] at hsorted
    apply (List.pairwise_append.mp hsorted).1.imp
    intro x y hxy heq
    rw [heq] at hxy
    omega
  refine ⟨?_, h.keeps, h.lowKept, h.self, rfl, h.link, fun _ => hlow,
    fun hv => absurd hv List.not_mem_nil, fun x hx => absurd hx List.not_mem_nil⟩
  refine ⟨h.inv.known, ?_, h.inv.bound, ?_, ?_, ?_, hs.opened, ?_, ?_, ?_, ?_, ?_, ?_⟩
  · intro x
    show Visited t x ↔ x ∈ s.stack ∨ x ∈ (t.result ++ [new ++ [v]]).flatten
    rw [h.inv.visited, hmem, hflatten, @List.mem_append _ x t.result.flatten]
    tauto
  · show s.stack.Pairwise _
    have hsorted := h.inv.sorted
    rw [h.stack] at hsorted
    exact (List.pairwise_cons.mp (List.pairwise_append.mp hsorted).2.1).2
  · intro x
    show on x = true ↔ x ∈ s.stack
    rw [hon, h.inv.onStack, hmem, List.mem_append, List.mem_singleton]
    constructor
    · intro ⟨hx, hnew, hne⟩
      exact hx.resolve_left fun h => h.elim hnew hne
    · intro hx
      exact ⟨.inr hx, hout x hx⟩
  · intro x hx
    show x ∉ (t.result ++ [new ++ [v]]).flatten
    rw [hflatten, List.mem_append, not_or, List.mem_append, List.mem_singleton, not_or]
    exact ⟨h.inv.disjoint x ((hmem x).mpr (.inr hx)), hout x hx⟩
  · intro x hx y hy hle
    exact h.inv.up x ((hmem x).mpr (.inr hx)) y ((hmem y).mpr (.inr hy)) hle
  · intro y hy
    obtain ⟨g, hg, hle, hpath⟩ := h.inv.down y ((hmem y).mpr (.inr hy))
    have hlower := hbelow y hy
    have hne : g ≠ v := by
      intro heq
      rw [heq] at hle
      omega
    exact ⟨g, (List.mem_cons.mp hg).resolve_left hne, hle, hpath⟩
  · intro x hx hclosed y hxy
    show Visited t y
    by_cases hxv : x = v
    · rw [hxv] at hxy
      exact (h.examined y (hall y hxy)).1
    · refine h.inv.closed x hx ?_ y hxy
      rw [List.mem_cons, not_or]
      exact ⟨hxv, hclosed⟩
  · show (t.result ++ [new ++ [v]]).flatten.Nodup
    rw [hflatten]
    apply h.inv.nodup.append hnodup
    intro x hx hx'
    exact h.inv.disjoint x ((hmem x).mpr (.inl hx')) hx
  · intro comp hmem_comp
    rcases List.mem_append.mp hmem_comp with hmem_comp | hmem_comp
    · exact h.inv.component comp hmem_comp
    · rw [List.mem_singleton.mp hmem_comp]
      exact isComponent_of_root (List.mem_append_right new (List.mem_singleton_self v)) hcomp
  · show t.index = s.stack.length + (t.result ++ [new ++ [v]]).flatten.length
    have hcount := h.inv.count
    rw [h.stack, List.length_append, List.length_cons] at hcount
    rw [hflatten, List.length_append, List.length_append, List.length_singleton]
    omega

end Finish

/-! ### Whole calls -/

def unvisited (nodes : List UInt32) (s : Tarjan) : Nat :=
  nodes.countP fun x => (s.indices x).isNone

theorem unvisited_le (nodes : List UInt32)
    (h : ∀ x i, s.indices x = some i → t.indices x = some i) :
    unvisited nodes t ≤ unvisited nodes s := by
  apply List.countP_mono_left
  intro x _ hx
  cases hs : s.indices x with
  | none => rfl
  | some i =>
    rw [h x i hs] at hx
    cases hx

theorem unvisited_lt {i : Nat} (hmem : v ∈ nodes) (hv : s.indices v = none)
    (ht : t.indices v = some i) (h : ∀ x i, s.indices x = some i → t.indices x = some i) :
    unvisited nodes t < unvisited nodes s := by
  obtain ⟨front, back, rfl⟩ := List.append_of_mem hmem
  have hfront := unvisited_le front h
  have hback := unvisited_le back h
  rw [unvisited, unvisited] at hfront hback ⊢
  rw [List.countP_append, List.countP_append, List.countP_cons, List.countP_cons, hv, ht]
  simp only [Option.isNone_none, Option.isNone_some, if_true, if_false, Bool.false_eq_true]
  omega

/-- What is asked of the calls for the neighbours. -/
def Connects (E : UInt32 → UInt32 → Prop) (nodes : List UInt32) (fuel : Nat)
    (connect : UInt32 → Tarjan → Option Tarjan) : Prop :=
  ∀ gray v s, v ∈ nodes → s.indices v = none → Inv E nodes gray s →
    (∀ g ∈ gray, ReflTransGen E g v) → unvisited nodes s ≤ fuel →
      ∃ s' new low, connect v s = some s' ∧ Connected E nodes gray v s s' new low

theorem visitEdge_spec {fuel : Nat} {connect : UInt32 → Tarjan → Option Tarjan}
    {e : UInt32 × UInt32} (hconnect : Connects E nodes fuel connect)
    (h : Scanned E nodes gray v s t past new low) (hv : s.indices v = none)
    (hreach : ∀ g ∈ gray, ReflTransGen E g v) (hedge : E e.1 e.2) (hmem : e.2 ∈ nodes)
    (hfuel : unvisited nodes t ≤ fuel) :
    ∃ t' new' low', visitEdge connect v t e = some t' ∧
      Scanned E nodes gray v s t' (past ++ [e]) new' low' ∧
        ∀ x i, t.indices x = some i → t'.indices x = some i := by
  rw [visitEdge]
  by_cases hsrc : e.1 ≠ v
  · rw [if_pos hsrc]
    exact ⟨t, new, low, rfl, h.pass fun heq => absurd heq hsrc, fun _ _ hx => hx⟩
  · rw [if_neg hsrc]
    have hsrc : e.1 = v := not_not.mp hsrc
    have he : e = (v, e.2) := Prod.ext hsrc rfl
    rw [hsrc] at hedge
    cases hd : t.indices e.2 with
    | none =>
      have hgray : ∀ g ∈ v :: gray, ReflTransGen E g e.2 := by
        intro g hg
        rcases List.mem_cons.mp hg with rfl | hg
        · exact .single hedge
        · exact (hreach g hg).tail hedge
      obtain ⟨t', above, low', hrun, h'⟩ := hconnect (v :: gray) e.2 t hmem hd h.inv hgray hfuel
      have hvisited : Visited t v := by
        rw [Visited, h.self]
        rfl
      have hlow : t'.lowlink v = some low := by rw [h'.lowKept v hvisited, h.link]
      refine ⟨t'.lower v (min low low'), above ++ new, min low low', ?_, ?_, h'.keeps⟩
      · rw [Option.isNone_none, if_pos rfl, hrun]
        show (t'.lowlink v >>= fun lowV => t'.lowlink e.2 >>= fun lowDst =>
          pure (t'.lower v (min lowV lowDst))) = _
        rw [hlow, h'.link]
        rfl
      · rw [he]
        exact h.tree hv hedge hd h'
    | some i =>
      rw [Option.isNone_some, if_neg (by decide)]
      have hvisited : Visited t e.2 := by
        rw [Visited, hd]
        rfl
      by_cases hon : t.onStack e.2 = true
      · refine ⟨t.lower v (min low (idx t e.2)), new, min low (idx t e.2), ?_, ?_,
          fun _ _ hx => hx⟩
        · rw [if_pos hon, h.link, idx_of_eq hd]
          rfl
        · rw [he]
          exact h.back hv hedge ((h.inv.onStack e.2).mp hon)
      · rw [if_neg hon]
        refine ⟨t, new, low, rfl, h.pass fun _ => ⟨hvisited, ?_⟩, fun _ _ hx => hx⟩
        exact fun hstack => hon ((h.inv.onStack e.2).mpr hstack)

/-- The whole loop of a node. -/
theorem visitEdges_spec {fuel : Nat} {connect : UInt32 → Tarjan → Option Tarjan}
    (hconnect : Connects E nodes fuel connect) (hv : s.indices v = none)
    (hreach : ∀ g ∈ gray, ReflTransGen E g v) (rest : CallGraph)
    (hrest : ∀ e ∈ rest, E e.1 e.2 ∧ e.2 ∈ nodes) :
    ∀ (past : CallGraph) (t : Tarjan) (new : List UInt32) (low : Nat),
      Scanned E nodes gray v s t past new low → unvisited nodes t ≤ fuel →
        ∃ t' new' low', rest.foldlM (visitEdge connect v) t = some t' ∧
          Scanned E nodes gray v s t' (past ++ rest) new' low' := by
  induction rest with
  | nil =>
    intro past t new low h _
    refine ⟨t, new, low, rfl, ?_⟩
    rw [List.append_nil]
    exact h
  | cons e rest ih =>
    intro past t new low h hfuel
    obtain ⟨⟨hedge, hmem⟩, hrest⟩ := List.forall_mem_cons.mp hrest
    obtain ⟨t₁, new₁, low₁, hrun, h₁, hkeeps⟩ :=
      visitEdge_spec hconnect h hv hreach hedge hmem hfuel
    have hless := unvisited_le nodes hkeeps
    obtain ⟨t', new', low', hloop, h'⟩ := ih hrest (past ++ [e]) t₁ new₁ low₁ h₁ (by omega)
    refine ⟨t', new', low', ?_, ?_⟩
    · rw [List.foldlM_cons, hrun]
      exact hloop
    · rw [List.append_assoc] at h'
      exact h'

/-- Every call for a node without an index ends, when there is fuel for the nodes without
    one. -/
theorem strongconnect_spec {callgraph : CallGraph}
    (hnodes : ∀ e ∈ callgraph, e.1 ∈ nodes ∧ e.2 ∈ nodes) (fuel : Nat) :
    Connects (Calls callgraph) nodes fuel (strongconnect callgraph fuel) := by
  induction fuel with
  | zero =>
    intro gray v s hmem hv _ _ hfuel
    have hless := @unvisited_lt nodes v s (s.enter v) s.index hmem hv enter_indices_self
      (fun x i hx => by
        have hne : x ≠ v := by
          intro heq
          rw [heq, hv] at hx
          cases hx
        rw [enter_indices_of_ne hne]
        exact hx)
    omega
  | succ fuel ih =>
    intro gray v s hmem hv hs hreach hfuel
    have hstart := scanned_enter hs hmem hv hreach
    have hless := unvisited_lt hmem hv hstart.self hstart.keeps
    obtain ⟨t, new, low, hloop, h⟩ := visitEdges_spec ih hv hreach callgraph
      (fun e he => ⟨he, (hnodes e he).2⟩) [] (s.enter v) [] s.index hstart (by omega)
    have hall : ∀ d, Calls callgraph v d → (v, d) ∈ [] ++ callgraph := fun d hd => hd
    rw [strongconnect, hloop]
    show ∃ s' new low, (if t.indices v = t.lowlink v then t.popLoop v t.stack [] else pure t) =
      some s' ∧ _
    rw [h.self, h.link]
    by_cases hlow : low = s.index
    · rw [if_pos (by rw [hlow])]
      obtain ⟨s', hpop, h'⟩ := h.pops hs hall hreach hlow
      exact ⟨s', [], low, hpop, h'⟩
    · rw [if_neg (fun heq => hlow (Option.some.inj heq).symm)]
      exact ⟨t, _, low, rfl, h.stays hall hs.opened hlow⟩

/-! ### The algorithm -/

theorem inv_new : Inv E nodes [] Tarjan.new := by
  refine ⟨?_, ?_, ?_, List.Pairwise.nil, ?_, ?_, ?_, ?_, ?_, ?_, List.nodup_nil, ?_, rfl⟩
  all_goals simp [Tarjan.new, Visited]

theorem computeScc_partition {callgraph : CallGraph} (hnodes : Enumerates nodes callgraph) :
    ∃ comps, computeScc nodes callgraph = some comps ∧
      IsPartition (Calls callgraph) (Mentioned callgraph) comps := by
  have hends : ∀ e ∈ callgraph, e.1 ∈ nodes ∧ e.2 ∈ nodes := fun e he =>
    ⟨(hnodes.mem_iff _).mpr ⟨e, he, .inl rfl⟩, (hnodes.mem_iff _).mpr ⟨e, he, .inr rfl⟩⟩
  -- Between two calls of the outer loop no node is on the stack.
  have hloop : ∀ (rest : List UInt32) (s : Tarjan), (∀ x ∈ rest, x ∈ nodes) →
      Inv (Calls callgraph) nodes [] s →
      ∃ s', rest.foldlM (fun s node =>
          if (s.indices node).isNone then strongconnect callgraph nodes.length node s
          else some s) s = some s' ∧ Inv (Calls callgraph) nodes [] s' ∧
        (∀ x i, s.indices x = some i → s'.indices x = some i) ∧ ∀ x ∈ rest, Visited s' x := by
    intro rest
    induction rest with
    | nil =>
      intro s _ hs
      exact ⟨s, rfl, hs, fun _ _ hx => hx, fun x hx => absurd hx List.not_mem_nil⟩
    | cons v rest ih =>
      intro s hrest hs
      obtain ⟨hmem, hrest⟩ := List.forall_mem_cons.mp hrest
      rw [List.foldlM_cons]
      cases hv : s.indices v with
      | some i =>
        obtain ⟨s', hrun, hs', hkeeps, hall⟩ := ih s hrest hs
        refine ⟨s', by rw [Option.isNone_some]; exact hrun, hs', hkeeps, ?_⟩
        intro x hx
        rcases List.mem_cons.mp hx with rfl | hx
        · rw [Visited, hkeeps x i hv]
          rfl
        · exact hall x hx
      | none =>
        obtain ⟨s₁, new, low, hconnect, h₁⟩ := strongconnect_spec hends nodes.length [] v s hmem hv
          hs (fun g hg => absurd hg List.not_mem_nil) List.countP_le_length
        obtain ⟨s', hrun, hs', hkeeps, hall⟩ := ih s₁ hrest h₁.inv
        refine ⟨s', ?_, hs', fun x i hx => hkeeps x i (h₁.keeps x i hx), ?_⟩
        · rw [Option.isNone_none, if_pos rfl, hconnect]
          exact hrun
        · intro x hx
          rcases List.mem_cons.mp hx with rfl | hx
          · rw [Visited, hkeeps x _ h₁.self]
            rfl
          · exact hall x hx
  obtain ⟨s, hrun, hs, -, hall⟩ := hloop nodes Tarjan.new (fun _ hx => hx) inv_new
  refine ⟨s.result, by rw [computeScc, hrun]; rfl, hs.nodup, ?_, hs.component⟩
  intro x
  rw [← hnodes.mem_iff]
  constructor
  · exact fun hx => hs.known x ((hs.visited x).mpr (.inr hx))
  · intro hx
    rcases (hs.visited x).mp (hall x hx) with hx | hx
    · obtain ⟨g, hg, -⟩ := hs.down x hx
      exact absurd hg List.not_mem_nil
    · exact hx

/-! ### The two algorithms -/

/-- The call graph with its nodes numbered. -/
def renumbered (ids : List UInt32) (callgraph : CallGraph) : List (List Nat) :=
  ids.map fun v => (callgraph.filter fun e => e.1 = v).map fun e => ids.idxOf e.2

def nameOf (ids : List UInt32) (i : Nat) : UInt32 := ids.getD i 0

section Renumbered

variable {ids : List UInt32} {callgraph : CallGraph}

theorem nameOf_eq {i : Nat} (h : i < ids.length) : nameOf ids i = ids[i] := by
  rw [nameOf, List.getD_eq_getElem?_getD, List.getElem?_eq_getElem h]
  rfl

theorem edge_renumbered (hids : Enumerates ids callgraph) {i j : Nat} (hi : i < ids.length)
    (hj : j < ids.length) :
    Edge (renumbered ids callgraph) i j ↔ Calls callgraph (nameOf ids i) (nameOf ids j) := by
  rw [edge_iff, nameOf_eq hi, nameOf_eq hj, renumbered, List.getElem?_map,
    List.getElem?_eq_getElem hi, Option.map_some]
  constructor
  · intro ⟨row, hrow, hmem⟩
    rw [← Option.some.inj hrow] at hmem
    obtain ⟨e, he, hidx⟩ := List.mem_map.mp hmem
    obtain ⟨he, hsrc⟩ := List.mem_filter.mp he
    have hdst : e.2 ∈ ids := (hids.mem_iff _).mpr ⟨e, he, .inr rfl⟩
    have hname : ids[j] = e.2 := by
      have hget := List.getElem_idxOf (List.idxOf_lt_length_of_mem hdst)
      simp only [hidx] at hget
      exact hget
    rw [Calls, hname, ← of_decide_eq_true hsrc]
    exact he
  · intro hcall
    refine ⟨_, rfl, List.mem_map.mpr ⟨(ids[i], ids[j]), ?_, ?_⟩⟩
    · exact List.mem_filter.mpr ⟨hcall, decide_eq_true rfl⟩
    · exact hids.nodup.idxOf_getElem j hj

theorem inRange_renumbered (hids : Enumerates ids callgraph) :
    InRange (renumbered ids callgraph) := by
  intro row hrow u hu
  obtain ⟨v, -, rfl⟩ := List.mem_map.mp hrow
  obtain ⟨e, he, rfl⟩ := List.mem_map.mp hu
  have hdst : e.2 ∈ ids := (hids.mem_iff _).mpr ⟨e, (List.mem_filter.mp he).1, .inr rfl⟩
  rw [renumbered, List.length_map]
  exact List.idxOf_lt_length_of_mem hdst

theorem numbering (hids : Enumerates ids callgraph) :
    Renaming (Edge (renumbered ids callgraph)) (fun i => i < (renumbered ids callgraph).length)
      (Calls callgraph) (Mentioned callgraph) (nameOf ids) := by
  have hlength : (renumbered ids callgraph).length = ids.length := List.length_map ..
  refine ⟨?_, ?_, ?_, ?_, ?_⟩
  · intro i j hi hj hij
    rw [hlength] at hi hj
    rw [nameOf_eq hi, nameOf_eq hj] at hij
    exact (hids.nodup.getElem_inj_iff).mp hij
  · intro z
    rw [← hids.mem_iff, List.mem_iff_getElem]
    constructor
    · intro ⟨i, hi, hz⟩
      exact ⟨i, by omega, by rw [nameOf_eq hi, hz]⟩
    · intro ⟨i, hi, hz⟩
      exact ⟨i, by omega, by rw [← hz, nameOf_eq (by omega)]⟩
  · intro i j hi hj
    exact edge_renumbered hids (by omega) (by omega)
  · intro i j _ hedge
    exact (edge_range (inRange_renumbered hids) hedge).2
  · intro i z _ hcall
    exact ⟨_, hcall, .inr rfl⟩

end Renumbered

/-- Kosaraju's algorithm returns the components of every graph in range, in topological
    order; Tarjan's ends for every call graph, in whatever order its nodes come, and its
    components are, as sets, those of Kosaraju's on the graph with its nodes numbered. -/
theorem scc_algorithms_agree {adj : List (List Nat)} (hrange : InRange adj)
    {callgraph : CallGraph} {nodes ids : List UInt32} (hnodes : Enumerates nodes callgraph)
    (hids : Enumerates ids callgraph) :
    (∃ comps, kosarajuScc adj = some comps ∧
      IsPartition (Edge adj) (fun x => x < adj.length) comps ∧ Topological (Edge adj) comps) ∧
    ∃ comps, computeScc nodes callgraph = some comps ∧
      IsPartition (Calls callgraph) (Mentioned callgraph) comps ∧
      ∃ numbered, kosarajuScc (renumbered ids callgraph) = some numbered ∧
        blocks comps = blocks (numbered.map fun comp => comp.map (nameOf ids)) := by
  refine ⟨kosarajuScc_partition hrange, ?_⟩
  obtain ⟨comps, hcomps, hpartition⟩ := computeScc_partition hnodes
  obtain ⟨numbered, hnumbered, hnumbers, -⟩ := kosarajuScc_partition (inRange_renumbered hids)
  exact ⟨comps, hcomps, hpartition, numbered, hnumbered,
    hpartition.blocks_unique (hnumbers.rename (numbering hids))⟩

/-- Two nodes that call each other, and a third that one of them and itself calls. -/
theorem scc_algorithms_agree_cycle :
    (∃ comps, kosarajuScc [[1], [0, 2], [2, 2]] = some comps ∧
      IsPartition (Edge [[1], [0, 2], [2, 2]]) (fun x => x < 3) comps ∧
        Topological (Edge [[1], [0, 2], [2, 2]]) comps) ∧
    ∃ comps, computeScc [9, 7, 3] [(7, 9), (9, 7), (9, 3), (3, 3)] = some comps ∧
      IsPartition (Calls [(7, 9), (9, 7), (9, 3), (3, 3)])
        (Mentioned [(7, 9), (9, 7), (9, 3), (3, 3)]) comps ∧
      ∃ numbered,
        kosarajuScc (renumbered [3, 7, 9] [(7, 9), (9, 7), (9, 3), (3, 3)]) = some numbered ∧
          blocks comps = blocks (numbered.map fun comp => comp.map (nameOf [3, 7, 9])) := by
  have hmentioned : ∀ x : UInt32, Mentioned [(7, 9), (9, 7), (9, 3), (3, 3)] x ↔
      x = 3 ∨ x = 7 ∨ x = 9 := by
    intro x
    simp only [Mentioned, List.mem_cons, List.not_mem_nil, or_false, exists_eq_or_imp,
      exists_eq_left]
    tauto
  refine scc_algorithms_agree (by simp [InRange]) ⟨by decide, ?_⟩ ⟨by decide, ?_⟩
  · intro x
    rw [hmentioned]
    simp only [List.mem_cons, List.not_mem_nil, or_false]
    rw [← or_assoc, @or_comm (x = 9 ∨ x = 7) (x = 3), @or_comm (x = 9) (x = 7)]
  · intro x
    rw [hmentioned]
    simp only [List.mem_cons, List.not_mem_nil, or_false]

example : computeScc [9, 7, 3] [(7, 9), (9, 7), (9, 3), (3, 3)] = some [[3], [7, 9]] := by decide

end Canon.Analysis
