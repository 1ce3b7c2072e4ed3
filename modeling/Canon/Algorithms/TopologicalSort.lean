import Canon.Lib.Kahn

/-! # Topological sorting and layering

    `topological_sort` of `graph/topological_sort.rs` and `topological_layers` of
    `graph/scheduling.rs`, two versions of Kahn's algorithm.

    * `countEdges`, `releaseRow`, `sortLoop`: the loops they share, with what a version does
      at a neighbour that is out of range and at a count of zero,
    * `topologicalSort`, `topologicalLayers`: the two functions,
    * `sortLoop_spec`, `layersLoop_spec`: their runs are runs of `Kahn.step`,
    * `topological_layers_longest`: the layers, and that both give one order.
-/

namespace Canon.Algorithms.TopologicalSort

/-! ### Model -/

/-- What a version does at a neighbour that is out of range: `true` when it goes on. -/
abbrev Guarded := Bool

/-- A count is taken down; nothing when that panics. -/
abbrev Lower := Nat → Option Nat

/-- The plain subtraction, which panics at zero. -/
def subtract : Lower
  | 0 => none
  | d + 1 => some d

def countRow (n : Nat) (guarded : Guarded) : List Nat → (Nat → Nat) → Option (Nat → Nat)
  | [], indegree => some indegree
  | v :: row, indegree =>
    if v < n then countRow n guarded row (Function.update indegree v (indegree v + 1))
    else if guarded then countRow n guarded row indegree
    else none

def countEdges (n : Nat) (guarded : Guarded) (adj : List (List Nat)) : Option (Nat → Nat) :=
  adj.foldlM (fun indegree row => countRow n guarded row indegree) fun _ => 0

def initialQueue (n : Nat) (indegree : Nat → Nat) : List Nat :=
  (List.range n).filter fun i => indegree i = 0

/-- The edges of one node are taken off. -/
def releaseRow (n : Nat) (guarded : Guarded) (lower : Lower) :
    List Nat → (Nat → Nat) → List Nat → Option ((Nat → Nat) × List Nat)
  | [], indegree, queue => some (indegree, queue)
  | v :: row, indegree, queue =>
    if v < n then do
      let d ← lower (indegree v)
      releaseRow n guarded lower row (Function.update indegree v d)
        (if d = 0 then queue ++ [v] else queue)
    else if guarded then releaseRow n guarded lower row indegree queue
    else none

/-- Nothing also when the fuel is spent. -/
def sortLoop (adj : List (List Nat)) (guarded : Guarded) (lower : Lower) :
    Nat → (Nat → Nat) → List Nat → List Nat → Option (List Nat)
  | 0, _, _, _ => none
  | _ + 1, _, [], order => some order
  | fuel + 1, indegree, u :: queue, order => do
    let (indegree, queue) ←
      releaseRow adj.length guarded lower (adj.getD u []) indegree queue
    sortLoop adj guarded lower fuel indegree queue (order ++ [u])

variable (adj : List (List Nat))

def sorted (guarded : Guarded) (lower : Lower) : Option (List Nat) := do
  let indegree ← countEdges adj.length guarded adj
  sortLoop adj guarded lower (adj.length + 1) indegree (initialQueue adj.length indegree) []

def topologicalSort : Option (List Nat) := sorted adj false subtract

/-- The loop over the nodes that are queued when a layer begins. -/
def takeLayer (adj : List (List Nat)) :
    Nat → (Nat → Nat) → List Nat → List Nat → Option ((Nat → Nat) × List Nat × List Nat)
  | 0, indegree, queue, layer => some (indegree, queue, layer)
  | count + 1, indegree, [], layer => takeLayer adj count indegree [] layer
  | count + 1, indegree, u :: queue, layer => do
    let (indegree, queue) ← releaseRow adj.length true subtract (adj.getD u []) indegree queue
    takeLayer adj count indegree queue (layer ++ [u])

def layersLoop (adj : List (List Nat)) :
    Nat → (Nat → Nat) → List Nat → List (List Nat) → Option (List (List Nat))
  | 0, _, _, _ => none
  | fuel + 1, indegree, queue, layers =>
    if queue = [] then some layers
    else do
      let (indegree, queue, layer) ← takeLayer adj queue.length indegree queue []
      layersLoop adj fuel indegree queue (if layer = [] then layers else layers ++ [layer])

def topologicalLayers : Option (List (List Nat)) := do
  let indegree ← countEdges adj.length true adj
  layersLoop adj (adj.length + 1) indegree (initialQueue adj.length indegree) []

/-- The graph without the neighbours that are out of range. -/
def inRange : List (List Nat) :=
  adj.map fun row => row.filter (· < adj.length)

/-- The neighbours of a node that are in range. -/
def next (u : Nat) : List Nat :=
  (adj.getD u []).filter (· < adj.length)

/-- An edge of the graph: a neighbour that is out of range is none. -/
abbrev Edge : Nat → Nat → Prop :=
  Kahn.Edge (List.range adj.length) (next adj)

/-! ### The shared loops -/

variable {adj : List (List Nat)} {n : Nat} {guarded : Guarded} {lower : Lower} {row : List Nat}
  {indegree : Nat → Nat} {queue : List Nat}

theorem next_mem (adj : List (List Nat)) :
    ∀ u ∈ List.range adj.length, ∀ v ∈ next adj u, v ∈ List.range adj.length := by
  intro u _ v hv
  exact List.mem_range.mpr (of_decide_eq_true (List.mem_filter.mp hv).2)

theorem filter_cons_of_lt {w : Nat} (hw : w < n) (row : List Nat) :
    (w :: row).filter (· < n) = w :: row.filter (· < n) :=
  List.filter_cons_of_pos (by simpa using hw)

theorem filter_cons_of_not_lt {w : Nat} (hw : ¬ w < n) (row : List Nat) :
    (w :: row).filter (· < n) = row.filter (· < n) :=
  List.filter_cons_of_neg (by simpa using hw)

theorem countRow_eq (hguard : guarded = true ∨ ∀ v ∈ row, v < n) (indegree : Nat → Nat) :
    countRow n guarded row indegree =
      some fun v => indegree v + (row.filter (· < n)).count v := by
  induction row generalizing indegree with
  | nil => rfl
  | cons w row ih =>
    have hguard' : guarded = true ∨ ∀ v ∈ row, v < n :=
      hguard.imp_right fun h v hv => h v (List.mem_cons_of_mem w hv)
    rw [countRow]
    by_cases hw : w < n
    · rw [if_pos hw, ih hguard', filter_cons_of_lt hw]
      congr 1
      funext v
      by_cases hv : v = w
      · rw [hv, Function.update_self, List.count_cons_self]
        omega
      · rw [Function.update_of_ne hv, List.count_cons_of_ne (Ne.symm hv)]
    · have hskip : guarded = true := hguard.resolve_right fun h => hw (h w List.mem_cons_self)
      rw [if_neg hw, if_pos hskip, ih hguard', filter_cons_of_not_lt hw]

/-- The counts are those of Kahn's algorithm. -/
theorem countEdges_eq (hguard : guarded = true ∨ ∀ row ∈ adj, ∀ v ∈ row, v < adj.length) :
    countEdges adj.length guarded adj =
      some (Kahn.remaining (List.range adj.length) (next adj) []) := by
  have hrows :
    ∀ (n : Nat) (rows : List (List Nat)), (guarded = true ∨ ∀ row ∈ rows, ∀ v ∈ row, v < n) →
      ∀ indegree : Nat → Nat, rows.foldlM (fun indegree row => countRow n guarded row indegree)
        indegree = some fun v => indegree v +
          (rows.map fun row => (row.filter (· < n)).count v).sum := by
    intro n rows
    induction rows with
    | nil => exact fun _ _ => rfl
    | cons row rows ih =>
      intro hguard indegree
      have hrow : guarded = true ∨ ∀ v ∈ row, v < n :=
        hguard.imp_right fun h => h row List.mem_cons_self
      have hrest : guarded = true ∨ ∀ row ∈ rows, ∀ v ∈ row, v < n :=
        hguard.imp_right fun h r hr => h r (List.mem_cons_of_mem row hr)
      rw [List.foldlM_cons, countRow_eq hrow]
      show rows.foldlM _ _ = _
      rw [ih hrest]
      congr 1
      funext v
      rw [List.map_cons, List.sum_cons]
      omega
  have hall : (List.range adj.length).filter (fun u => u ∉ ([] : List Nat)) =
      List.range adj.length := by simp
  have hadj : (List.range adj.length).map (fun u => adj.getD u []) = adj := by
    apply List.ext_getElem
    · simp
    · intro i hi hi'
      simp [List.getD_eq_getElem?_getD, List.getElem?_eq_getElem hi']
  have hmap : ∀ f : List Nat → Nat,
      adj.map f = (List.range adj.length).map fun u => f (adj.getD u []) := by
    intro f
    conv_lhs => rw [← hadj]
    rw [List.map_map]
    rfl
  rw [countEdges, hrows adj.length adj hguard]
  congr 1
  funext v
  rw [Kahn.remaining, hall, Nat.zero_add, hmap]
  rfl

/-- Taking the edges off is that of Kahn's algorithm, and no count goes below zero. -/
theorem releaseRow_eq (hlower : ∀ d, lower (d + 1) = some d)
    (hguard : guarded = true ∨ ∀ v ∈ row, v < n)
    (hcount : ∀ v, (row.filter (· < n)).count v ≤ indegree v) :
    releaseRow n guarded lower row indegree queue =
      some (Kahn.release (row.filter (· < n)) indegree queue) := by
  induction row generalizing indegree queue with
  | nil => rfl
  | cons w row ih =>
    have hguard' : guarded = true ∨ ∀ v ∈ row, v < n :=
      hguard.imp_right fun h v hv => h v (List.mem_cons_of_mem w hv)
    rw [releaseRow]
    by_cases hw : w < n
    · rw [filter_cons_of_lt hw] at hcount
      have hpositive := hcount w
      rw [List.count_cons_self] at hpositive
      have hd : lower (indegree w) = some (indegree w - 1) := by
        obtain ⟨d, hd⟩ : ∃ d, indegree w = d + 1 := ⟨indegree w - 1, by omega⟩
        rw [hd, hlower, Nat.add_sub_cancel]
      have hrest : ∀ v, (row.filter (· < n)).count v ≤
          Function.update indegree w (indegree w - 1) v := by
        intro v
        by_cases hv : v = w
        · rw [hv, Function.update_self]
          omega
        · rw [Function.update_of_ne hv]
          have hle := hcount v
          rw [List.count_cons_of_ne (Ne.symm hv)] at hle
          exact hle
      rw [if_pos hw, hd, filter_cons_of_lt hw, Kahn.release]
      exact ih hguard' hrest
    · have hskip : guarded = true := hguard.resolve_right fun h => hw (h w List.mem_cons_self)
      rw [filter_cons_of_not_lt hw] at hcount ⊢
      rw [if_neg hw, if_pos hskip]
      exact ih hguard' hcount

abbrev KahnInv (adj : List (List Nat)) : Kahn.State Nat → Prop :=
  Kahn.Inv (List.range adj.length) (next adj)

/-- The first node of the queue: the code takes a step of Kahn's algorithm. -/
theorem releaseRow_step {s : Kahn.State Nat} {u : Nat} {rest : List Nat}
    (hlower : ∀ d, lower (d + 1) = some d)
    (hguard : guarded = true ∨ ∀ row ∈ adj, ∀ v ∈ row, v < adj.length) (h : KahnInv adj s)
    (hqueue : s.queue = u :: rest) :
    releaseRow adj.length guarded lower (adj.getD u []) s.indegree rest =
      some ((Kahn.step (next adj) s).indegree, (Kahn.step (next adj) s).queue) := by
  have hmem : u ∈ s.order ++ s.queue := by
    rw [hqueue]
    simp
  have hnodup := h.nodup
  rw [hqueue] at hnodup
  have hnot : u ∉ s.order := fun hin =>
    (List.nodup_append.mp hnodup).2.2 u hin u List.mem_cons_self rfl
  have hrow : guarded = true ∨ ∀ v ∈ adj.getD u [], v < adj.length := by
    apply hguard.imp_right
    intro hall
    have hlt := List.mem_range.mp (h.sub u hmem)
    rw [List.getD_eq_getElem?_getD, List.getElem?_eq_getElem hlt, Option.getD_some]
    exact hall _ (List.getElem_mem hlt)
  rw [releaseRow_eq hlower hrow
    (h.count_le List.nodup_range (next_mem adj) (h.sub u hmem) hnot), Kahn.step, hqueue]
  rfl

/-- The loop runs Kahn's algorithm to its end. -/
theorem sortLoop_spec (hlower : ∀ d, lower (d + 1) = some d)
    (hguard : guarded = true ∨ ∀ row ∈ adj, ∀ v ∈ row, v < adj.length) (fuel : Nat) :
    ∀ s : Kahn.State Nat, KahnInv adj s → adj.length - s.order.length < fuel →
      ∃ k, sortLoop adj guarded lower fuel s.indegree s.queue s.order =
          some ((Kahn.step (next adj))^[k] s).order ∧
        KahnInv adj ((Kahn.step (next adj))^[k] s) ∧
        ((Kahn.step (next adj))^[k] s).queue = [] := by
  induction fuel with
  | zero =>
    intro s _ hfuel
    omega
  | succ fuel ih =>
    intro s h hfuel
    cases hqueue : s.queue with
    | nil => exact ⟨0, rfl, h, hqueue⟩
    | cons u rest =>
      obtain ⟨hinv, horder, -⟩ := h.step_cons List.nodup_range (next_mem adj) hqueue
      have hroom := h.order_length
      rw [hqueue, List.length_cons, List.length_range] at hroom
      have hlength : (Kahn.step (next adj) s).order.length = s.order.length + 1 := by
        rw [horder, List.length_append, List.length_singleton]
      obtain ⟨k, hrun, hend⟩ := ih (Kahn.step (next adj) s) hinv (by omega)
      refine ⟨k + 1, ?_, hend⟩
      rw [sortLoop, releaseRow_step hlower hguard h hqueue, ← horder]
      exact hrun

theorem sorted_spec (hlower : ∀ d, lower (d + 1) = some d)
    (hguard : guarded = true ∨ ∀ row ∈ adj, ∀ v ∈ row, v < adj.length) :
    ∃ k, sorted adj guarded lower = some
        ((Kahn.step (next adj))^[k] (Kahn.start (List.range adj.length) (next adj))).order ∧
      KahnInv adj ((Kahn.step (next adj))^[k] (Kahn.start (List.range adj.length) (next adj))) ∧
      ((Kahn.step (next adj))^[k] (Kahn.start (List.range adj.length) (next adj))).queue = [] := by
  obtain ⟨k, hrun, hend⟩ := sortLoop_spec hlower hguard (adj.length + 1)
    (Kahn.start (List.range adj.length) (next adj)) (Kahn.inv_start List.nodup_range)
    (Nat.lt_succ_of_le (Nat.sub_le ..))
  refine ⟨k, ?_, hend⟩
  rw [sorted, countEdges_eq hguard]
  exact hrun

/-! ### Layers -/

abbrev Longest (adj : List (List Nat)) : Nat → Nat → Prop := Kahn.Longest (Edge adj)

abbrev Layered (adj : List (List Nat)) :
    Nat → List Nat → List Nat → Kahn.State Nat → Prop :=
  Kahn.Layered (List.range adj.length) (next adj)

/-- The loop over one layer takes its nodes and leaves the next layer in the queue. -/
theorem takeLayer_spec (k : Nat) (rest : List Nat) :
    ∀ (later layer : List Nat) (s : Kahn.State Nat), Layered adj k rest later s →
      ∃ later', Layered adj k [] later' ((Kahn.step (next adj))^[rest.length] s) ∧
        ((Kahn.step (next adj))^[rest.length] s).order = s.order ++ rest ∧
        takeLayer adj rest.length s.indegree s.queue layer =
          some (((Kahn.step (next adj))^[rest.length] s).indegree,
            ((Kahn.step (next adj))^[rest.length] s).queue, layer ++ rest) := by
  induction rest with
  | nil =>
    intro later layer s h
    exact ⟨later, h, (List.append_nil _).symm, by rw [List.append_nil]; rfl⟩
  | cons u rest ih =>
    intro later layer s h
    have hqueue : s.queue = u :: (rest ++ later) := h.queue
    obtain ⟨new, hlayered, horder⟩ := h.step List.nodup_range (next_mem adj)
    obtain ⟨later', hend, hdone, hrun⟩ := ih (later ++ new) (layer ++ [u]) _ hlayered
    refine ⟨later', hend, ?_, ?_⟩
    · show ((Kahn.step (next adj))^[rest.length] (Kahn.step (next adj) s)).order = _
      rw [hdone, horder, List.append_assoc]
      rfl
    · rw [hqueue, List.length_cons, takeLayer,
        releaseRow_step (fun _ => rfl) (.inl rfl) h.inv hqueue]
      show takeLayer adj rest.length _ _ (layer ++ [u]) = _
      rw [hrun, List.append_assoc]
      rfl

/-- The layers so far: the nodes that are done, each in the layer of its longest path. -/
structure Laid (adj : List (List Nat)) (layers : List (List Nat)) (s : Kahn.State Nat) : Prop where
  inv : KahnInv adj s
  flatten : layers.flatten = s.order
  longest : ∀ i layer, layers[i]? = some layer → ∀ v ∈ layer, Longest adj v i
  queued : ∀ v ∈ s.queue, Longest adj v layers.length

theorem Laid.layered {layers : List (List Nat)} {s : Kahn.State Nat} (h : Laid adj layers s) :
    Layered adj layers.length s.queue [] s where
  inv := h.inv
  queue := (List.append_nil _).symm
  done := by
    intro v hv
    rw [← h.flatten] at hv
    obtain ⟨layer, hlayer, hv⟩ := List.mem_flatten.mp hv
    obtain ⟨i, hi, hget⟩ := List.mem_iff_getElem.mp hlayer
    refine ⟨i, Nat.le_of_lt hi, h.longest i layer ?_ v hv⟩
    rw [List.getElem?_eq_getElem hi, hget]
  rest := h.queued
  later := fun v hv => absurd hv List.not_mem_nil

theorem layersLoop_spec (fuel : Nat) :
    ∀ (layers : List (List Nat)) (s : Kahn.State Nat), Laid adj layers s →
      adj.length - s.order.length < fuel →
        ∃ out k, layersLoop adj fuel s.indegree s.queue layers = some out ∧
          Laid adj out ((Kahn.step (next adj))^[k] s) ∧
          ((Kahn.step (next adj))^[k] s).queue = [] := by
  induction fuel with
  | zero =>
    intro layers s _ hfuel
    omega
  | succ fuel ih =>
    intro layers s h hfuel
    rw [layersLoop]
    by_cases hempty : s.queue = []
    · rw [if_pos hempty]
      exact ⟨layers, 0, rfl, h, hempty⟩
    · obtain ⟨later, hend, horder, hrun⟩ := takeLayer_spec layers.length s.queue [] [] s h.layered
      rw [List.nil_append] at hrun
      have hpositive := List.length_pos_iff.mpr hempty
      have hroom := h.inv.order_length
      rw [List.length_range] at hroom
      have hlength := congrArg List.length horder
      rw [List.length_append] at hlength
      have hnext : Laid adj (layers ++ [s.queue]) ((Kahn.step (next adj))^[s.queue.length] s) := by
        refine ⟨hend.inv, ?_, ?_, ?_⟩
        · rw [List.flatten_append, List.flatten_singleton, h.flatten, horder]
        · intro i layer hi v hv
          by_cases hlt : i < layers.length
          · rw [List.getElem?_append_left hlt] at hi
            exact h.longest i layer hi v hv
          · have hlast : i = layers.length := by
              have hsome := (List.getElem?_eq_some_iff.mp hi).1
              rw [List.length_append, List.length_singleton] at hsome
              omega
            rw [hlast, List.getElem?_concat_length] at hi
            rw [← Option.some.inj hi] at hv
            rw [hlast]
            exact h.queued v hv
        · intro v hv
          rw [hend.queue, List.nil_append] at hv
          rw [List.length_append, List.length_singleton]
          exact hend.later v hv
      obtain ⟨out, k, hloop, hlaid, hqueue⟩ := ih (layers ++ [s.queue]) _ hnext (by omega)
      refine ⟨out, k + s.queue.length, ?_, ?_, ?_⟩
      · rw [if_neg hempty, hrun]
        show layersLoop adj fuel _ _ (if s.queue = [] then layers else layers ++ [s.queue]) = _
        rw [if_neg hempty]
        exact hloop
      · rw [Function.iterate_add_apply]
        exact hlaid
      · rw [Function.iterate_add_apply]
        exact hqueue

/-! ### Both functions -/

theorem length_inRange (adj : List (List Nat)) : (inRange adj).length = adj.length :=
  List.length_map ..

theorem next_inRange (adj : List (List Nat)) : next (inRange adj) = next adj := by
  funext u
  rw [next, next, length_inRange, inRange, List.getD_eq_getElem?_getD, List.getElem?_map,
    List.getD_eq_getElem?_getD]
  cases adj[u]? with
  | none => rfl
  | some row =>
    show (row.filter _).filter _ = row.filter _
    rw [List.filter_filter]
    simp

/-- For every graph the layers contain each node that no cycle reaches once, in the layer of
    its longest path, and no other node; so an edge leads to a later layer, and the nodes in
    their order are those of the topological sort of the graph in range. -/
theorem topological_layers_longest (adj : List (List Nat)) :
    ∃ layers, topologicalLayers adj = some layers ∧ layers.flatten.Nodup ∧
      (∀ v, v ∈ layers.flatten ↔ v < adj.length ∧ ¬ Kahn.FromCycle (Edge adj) v) ∧
      (∀ (i : Nat) layer, layers[i]? = some layer → ∀ v ∈ layer, Longest adj v i) ∧
      (∀ (i j : Nat) earlier later u v, layers[i]? = some earlier → layers[j]? = some later →
        u ∈ earlier → v ∈ later → Edge adj u v → i < j) ∧
      topologicalSort (inRange adj) = some layers.flatten := by
  have hinv : KahnInv adj (Kahn.start (List.range adj.length) (next adj)) :=
    Kahn.inv_start List.nodup_range
  have hstart : Laid adj [] (Kahn.start (List.range adj.length) (next adj)) := by
    refine ⟨hinv, rfl, ?_, ?_⟩
    · intro i layer hi
      rw [List.getElem?_nil] at hi
      cases hi
    · intro v hv
      apply Kahn.longest_zero
      intro u huv
      exact absurd (hinv.preds hv huv) List.not_mem_nil
  obtain ⟨layers, k, hrun, hlaid, hqueue⟩ := layersLoop_spec (adj.length + 1) [] _ hstart
    (Nat.lt_succ_of_le (Nat.sub_le ..))
  have hguard : false = true ∨ ∀ row ∈ inRange adj, ∀ v ∈ row, v < (inRange adj).length := by
    right
    intro row hrow v hv
    obtain ⟨row', -, rfl⟩ := List.mem_map.mp hrow
    rw [length_inRange]
    exact of_decide_eq_true (List.mem_filter.mp hv).2
  obtain ⟨m, hsort, -, hsorted⟩ := @sorted_spec (inRange adj) false subtract (fun _ => rfl) hguard
  rw [length_inRange, next_inRange] at hsort hsorted
  refine ⟨layers, ?_, ?_, ?_, hlaid.longest, ?_, ?_⟩
  · rw [topologicalLayers, countEdges_eq (.inl rfl)]
    exact hrun
  · rw [hlaid.flatten]
    exact (List.nodup_append.mp hlaid.inv.nodup).1
  · intro v
    rw [hlaid.flatten, Kahn.mem_order_iff hlaid.inv hqueue, List.mem_range]
  · intro i j earlier later u v hi hj hu hv huv
    exact (hlaid.longest i earlier hi u hu).lt (hlaid.longest j later hj v hv) huv
  · rw [topologicalSort, hsort, hlaid.flatten, Kahn.runs_agree hsorted hqueue]

end Canon.Algorithms.TopologicalSort
