import Mathlib.Data.Finset.Insert

/-! # Back edges

    `compute_back_edges` of `control_flow/cfg_pattern.rs`: a depth-first search from every
    node notes the edges that lead to a node whose search is still open.

    * `dfsBackEdges`, `computeBackEdges`: the search,
    * `Inv`: the open nodes, the finished ones in their order and the edges noted so far,
    * `dfsBackEdges_spec` for one search, `searches_spec` for all of them.
-/

namespace Canon.Algorithms.BackEdges

open Relation

/-! ### Model -/

structure Search where
  visited : Nat → Bool
  onStack : Nat → Bool
  backEdges : Finset (Nat × Nat)

def Search.enter (s : Search) (u : Nat) : Search where
  visited := Function.update s.visited u true
  onStack := Function.update s.onStack u true
  backEdges := s.backEdges

def Search.leave (s : Search) (u : Nat) : Search :=
  { s with onStack := Function.update s.onStack u false }

/-- A neighbour in the loop of a node. -/
def visitNeighbour (n : Nat) (dfs : Nat → Search → Option Search) (u : Nat) (s : Search)
    (v : Nat) : Option Search :=
  if v ≥ n then some s
  else if !s.visited v then dfs v s
  else if s.onStack v then some { s with backEdges := insert (u, v) s.backEdges }
  else some s

/-- Nothing when the fuel is spent. -/
def dfsBackEdges (adj : List (List Nat)) : Nat → Nat → Search → Option Search
  | 0, _, _ => none
  | fuel + 1, u, s => do
    let s ← (adj.getD u []).foldlM (visitNeighbour adj.length (dfsBackEdges adj fuel) u) (s.enter u)
    pure (s.leave u)

def computeBackEdges (adj : List (List Nat)) : Option (Finset (Nat × Nat)) := do
  let n := adj.length
  let s ← (List.range n).foldlM
    (fun s start => if !s.visited start then dfsBackEdges adj n start s else some s)
    (⟨fun _ => false, fun _ => false, ∅⟩ : Search)
  pure s.backEdges

/-- An edge of the graph: a neighbour that is out of range is none. -/
def Edge (adj : List (List Nat)) (u v : Nat) : Prop := v ∈ adj.getD u [] ∧ v < adj.length

/-- No path leads back to where it began. -/
def Acyclic (E : Nat → Nat → Prop) : Prop := ∀ x, ¬ TransGen E x x

/-- The edges that are left without those of a set. -/
def Without (E : Nat → Nat → Prop) (removed : Finset (Nat × Nat)) (u v : Nat) : Prop :=
  E u v ∧ (u, v) ∉ removed

/-! ### Invariant -/

/-- Behind a finished node its other edges lead to nodes finished before it. -/
inductive Finished (E : Nat → Nat → Prop) (back : Finset (Nat × Nat)) : List Nat → Prop where
  | nil : Finished E back []
  | snoc {done : List Nat} {u : Nat} (h : Finished E back done) (hu : u ∉ done)
      (hedges : ∀ v, E u v → (u, v) ∈ back ∨ v ∈ done) : Finished E back (done ++ [u])

/-- The nodes `gray` are open, the nodes `done` finished in this order. -/
structure Inv (E : Nat → Nat → Prop) (gray done : List Nat) (s : Search) : Prop where
  visited : ∀ x, s.visited x = true ↔ x ∈ gray ∨ x ∈ done
  onStack : ∀ x, s.onStack x = true ↔ x ∈ gray
  disjoint : ∀ x ∈ gray, x ∉ done
  finished : Finished E s.backEdges done
  back : ∀ e ∈ s.backEdges, E e.1 e.2 ∧ ReflTransGen E e.2 e.1

variable {E : Nat → Nat → Prop} {gray done new : List Nat} {s t : Search} {u v : Nat}
  {back back' : Finset (Nat × Nat)}

theorem Finished.mono (h : Finished E back done) (hsub : back ⊆ back') :
    Finished E back' done := by
  induction h with
  | nil => exact .nil
  | snoc _ hu hedges ih =>
    refine .snoc ih hu ?_
    intro v hv
    exact (hedges v hv).imp_left fun hmem => hsub hmem

/-- Without the back edges every edge leads to an earlier node. -/
theorem Finished.descends (h : Finished E back done) (hu : u ∈ done)
    (huv : Without E back u v) : v ∈ done ∧ done.idxOf v < done.idxOf u := by
  induction h with
  | nil => exact absurd hu List.not_mem_nil
  | @snoc done w _ hw hedges ih =>
    by_cases hmem : u ∈ done
    · obtain ⟨hv, hlt⟩ := ih hmem
      rw [List.idxOf_append_of_mem hv, List.idxOf_append_of_mem hmem]
      exact ⟨List.mem_append_left _ hv, hlt⟩
    · have huw : u = w := by
        rcases List.mem_append.mp hu with hu | hu
        · exact absurd hu hmem
        · exact List.mem_singleton.mp hu
      rw [huw] at huv ⊢
      have hv := (hedges v huv.1).resolve_left huv.2
      refine ⟨List.mem_append_left _ hv, ?_⟩
      rw [List.idxOf_append_of_mem hv, List.idxOf_append_of_notMem hw]
      have hlt := List.idxOf_lt_length_of_mem hv
      omega

theorem Finished.acyclic (h : Finished E back done) (hall : ∀ u v, E u v → u ∈ done) :
    Acyclic (Without E back) := by
  have hlower : ∀ {x y}, TransGen (Without E back) x y → done.idxOf y < done.idxOf x := by
    intro x y hpath
    induction hpath with
    | single hstep => exact (h.descends (hall _ _ hstep.1) hstep).2
    | tail _ hstep ih =>
      have hlast := (h.descends (hall _ _ hstep.1) hstep).2
      omega
  intro x hx
  exact Nat.lt_irrefl _ (hlower hx)

/-! ### Single steps -/

theorem Inv.enter (h : Inv E gray done s) (hu : s.visited u = false) :
    Inv E (u :: gray) done (s.enter u) := by
  have hnot : u ∉ gray ∧ u ∉ done := by
    rw [← not_or, ← h.visited u, hu]
    decide
  refine ⟨?_, ?_, ?_, h.finished, h.back⟩
  · intro x
    show Function.update s.visited u true x = true ↔ _
    rw [List.mem_cons, or_assoc]
    by_cases hx : x = u
    · simp [hx]
    · rw [Function.update_of_ne hx, h.visited]
      simp [hx]
  · intro x
    show Function.update s.onStack u true x = true ↔ _
    rw [List.mem_cons]
    by_cases hx : x = u
    · simp [hx]
    · rw [Function.update_of_ne hx, h.onStack]
      simp [hx]
  · intro x hx
    rcases List.mem_cons.mp hx with rfl | hx
    · exact hnot.2
    · exact h.disjoint x hx

/-- A node is finished when each of its edges leads to a finished node or is noted. -/
theorem Inv.leave (h : Inv E (u :: gray) done t) (hu : u ∉ gray)
    (hedges : ∀ v, E u v → (u, v) ∈ t.backEdges ∨ v ∈ done) :
    Inv E gray (done ++ [u]) (t.leave u) := by
  refine ⟨?_, ?_, ?_, .snoc h.finished (h.disjoint u List.mem_cons_self) hedges, h.back⟩
  · intro x
    show t.visited x = true ↔ _
    rw [h.visited, List.mem_cons, List.mem_append, List.mem_singleton]
    tauto
  · intro x
    show Function.update t.onStack u false x = true ↔ _
    by_cases hx : x = u
    · simp [hx, hu]
    · rw [Function.update_of_ne hx, h.onStack, List.mem_cons]
      simp [hx]
  · intro x hx
    rw [List.mem_append, List.mem_singleton, not_or]
    refine ⟨h.disjoint x (List.mem_cons_of_mem u hx), ?_⟩
    intro heq
    rw [heq] at hx
    exact hu hx

theorem Inv.note (h : Inv E gray done t) (huv : E u v) (hback : ReflTransGen E v u) :
    Inv E gray done { t with backEdges := insert (u, v) t.backEdges } := by
  refine ⟨h.visited, h.onStack, h.disjoint, h.finished.mono (Finset.subset_insert _ _), ?_⟩
  intro e he
  rcases Finset.mem_insert.mp he with rfl | he
  · exact ⟨huv, hback⟩
  · exact h.back e he

/-! ### Whole searches -/

def unvisited (nodes : List Nat) (s : Search) : Nat := nodes.countP fun x => !s.visited x

theorem unvisited_le {nodes : List Nat} (h : ∀ x, s.visited x = true → t.visited x = true) :
    unvisited nodes t ≤ unvisited nodes s := by
  apply List.countP_mono_left
  intro x _ hx
  rw [Bool.not_eq_true'] at hx ⊢
  cases hs : s.visited x with
  | false => rfl
  | true =>
    rw [h x hs] at hx
    cases hx

theorem unvisited_lt {nodes : List Nat} (hmem : u ∈ nodes) (hs : s.visited u = false)
    (ht : t.visited u = true) (h : ∀ x, s.visited x = true → t.visited x = true) :
    unvisited nodes t < unvisited nodes s := by
  obtain ⟨front, rest, rfl⟩ := List.append_of_mem hmem
  have hfront := @unvisited_le s t front h
  have hrest := @unvisited_le s t rest h
  rw [unvisited, unvisited] at hfront hrest ⊢
  rw [List.countP_append, List.countP_append, List.countP_cons, List.countP_cons, hs, ht]
  simp only [Bool.not_true, Bool.not_false, if_true, if_false, Bool.false_eq_true]
  omega

/-- What a search for `u` is asked: it ends, with `u` as the last of the nodes it finished. -/
def Searches (adj : List (List Nat)) (fuel : Nat) (dfs : Nat → Search → Option Search) : Prop :=
  ∀ gray done u s, u < adj.length → s.visited u = false → Inv (Edge adj) gray done s →
    (∀ g ∈ gray, ReflTransGen (Edge adj) g u) → unvisited (List.range adj.length) s ≤ fuel →
      ∃ s' new, dfs u s = some s' ∧ Inv (Edge adj) gray (done ++ (new ++ [u])) s' ∧
        s.backEdges ⊆ s'.backEdges

section Search

variable {adj : List (List Nat)} {fuel : Nat} {dfs : Nat → Search → Option Search}

theorem Inv.visited_mono {done' : List Nat} {s' : Search} (h : Inv E gray done s)
    (h' : Inv E gray (done ++ done') s') {x : Nat} (hx : s.visited x = true) :
    s'.visited x = true :=
  (h'.visited x).mpr (((h.visited x).mp hx).imp_right fun hx => List.mem_append_left _ hx)

/-- One neighbour: afterwards it is finished or its edge is noted. -/
theorem visitNeighbour_spec (hdfs : Searches adj fuel dfs)
    (h : Inv (Edge adj) (u :: gray) done t) (hreach : ∀ g ∈ gray, ReflTransGen (Edge adj) g u)
    (hv : v ∈ adj.getD u []) (hfuel : unvisited (List.range adj.length) t ≤ fuel) :
    ∃ t' new, visitNeighbour adj.length dfs u t v = some t' ∧
      Inv (Edge adj) (u :: gray) (done ++ new) t' ∧ t.backEdges ⊆ t'.backEdges ∧
        (v < adj.length → (u, v) ∈ t'.backEdges ∨ v ∈ done ++ new) := by
  have hsame : Inv (Edge adj) (u :: gray) (done ++ []) t := by
    rw [List.append_nil]
    exact h
  rw [visitNeighbour]
  by_cases hrange : v ≥ adj.length
  · rw [if_pos hrange]
    exact ⟨t, [], rfl, hsame, Finset.Subset.refl _, fun hlt => by omega⟩
  · rw [if_neg hrange]
    have hedge : Edge adj u v := ⟨hv, by omega⟩
    cases hvisited : t.visited v with
    | false =>
      have hgray : ∀ g ∈ u :: gray, ReflTransGen (Edge adj) g v := by
        intro g hg
        rcases List.mem_cons.mp hg with rfl | hg
        · exact .single hedge
        · exact (hreach g hg).tail hedge
      obtain ⟨t', new, hrun, hinv, hsub⟩ := hdfs (u :: gray) done v t hedge.2 hvisited h hgray hfuel
      refine ⟨t', new ++ [v], hrun, hinv, hsub, fun _ => .inr ?_⟩
      simp
    | true =>
      rw [Bool.not_true, if_neg (by decide)]
      by_cases hon : t.onStack v = true
      -- An open node: it reaches `u`, whose search began later.
      · have hmem := (h.onStack v).mp hon
        have hback : ReflTransGen (Edge adj) v u := by
          rcases List.mem_cons.mp hmem with rfl | hmem
          · exact .refl
          · exact hreach v hmem
        rw [if_pos hon]
        exact ⟨_, [], rfl, hsame.note hedge hback, Finset.subset_insert _ _,
          fun _ => .inl (Finset.mem_insert_self _ _)⟩
      · rw [if_neg hon]
        refine ⟨t, [], rfl, hsame, Finset.Subset.refl _, fun _ => .inr ?_⟩
        rw [List.append_nil]
        exact ((h.visited v).mp hvisited).resolve_left fun hmem => hon ((h.onStack v).mpr hmem)

theorem visitNeighbours_spec (hdfs : Searches adj fuel dfs)
    (hreach : ∀ g ∈ gray, ReflTransGen (Edge adj) g u) (rest : List Nat)
    (hrest : ∀ v ∈ rest, v ∈ adj.getD u []) :
    ∀ (done : List Nat) (t : Search), Inv (Edge adj) (u :: gray) done t →
      unvisited (List.range adj.length) t ≤ fuel →
        ∃ t' new, rest.foldlM (visitNeighbour adj.length dfs u) t = some t' ∧
          Inv (Edge adj) (u :: gray) (done ++ new) t' ∧ t.backEdges ⊆ t'.backEdges ∧
            ∀ v ∈ rest, v < adj.length → (u, v) ∈ t'.backEdges ∨ v ∈ done ++ new := by
  induction rest with
  | nil =>
    intro done t h _
    refine ⟨t, [], rfl, ?_, Finset.Subset.refl _, fun v hv => absurd hv List.not_mem_nil⟩
    rw [List.append_nil]
    exact h
  | cons w rest ih =>
    intro done t h hfuel
    obtain ⟨hw, hrest⟩ := List.forall_mem_cons.mp hrest
    obtain ⟨t₁, first, hrun, h₁, hsub, hone⟩ := visitNeighbour_spec hdfs h hreach hw hfuel
    have hless := @unvisited_le t t₁ (List.range adj.length) fun x hx => h.visited_mono h₁ hx
    obtain ⟨t', new, hloop, h', hsub', hall⟩ := ih hrest (done ++ first) t₁ h₁ (by omega)
    rw [List.append_assoc] at h'
    refine ⟨t', first ++ new, ?_, h', hsub.trans hsub', ?_⟩
    · rw [List.foldlM_cons, hrun]
      exact hloop
    · intro v hv hlt
      rcases List.mem_cons.mp hv with rfl | hv
      · rcases hone hlt with hmem | hmem
        · exact .inl (hsub' hmem)
        · right
          rw [← List.append_assoc]
          exact List.mem_append_left _ hmem
      · rw [← List.append_assoc]
        exact hall v hv hlt

theorem dfsBackEdges_spec (adj : List (List Nat)) (fuel : Nat) :
    Searches adj fuel (dfsBackEdges adj fuel) := by
  induction fuel with
  | zero =>
    intro gray done u s hu hnew _ _ hfuel
    have hless := @unvisited_lt s (s.enter u) u (List.range adj.length) (List.mem_range.mpr hu) hnew
      (Function.update_self ..) fun x hx => by
        show Function.update s.visited u true x = true
        by_cases hxu : x = u
        · rw [hxu, Function.update_self]
        · rw [Function.update_of_ne hxu]
          exact hx
    omega
  | succ fuel ih =>
    intro gray done u s hu hnew h hreach hfuel
    have hentered := h.enter hnew
    have hnot : u ∉ gray := by
      intro hmem
      rw [(h.visited u).mpr (.inl hmem)] at hnew
      cases hnew
    have hless := @unvisited_lt s (s.enter u) u (List.range adj.length) (List.mem_range.mpr hu) hnew
      (Function.update_self ..) fun x hx => (hentered.visited x).mpr
        (((h.visited x).mp hx).imp_left fun hx => List.mem_cons_of_mem u hx)
    obtain ⟨t, new, hloop, ht, hsub, hall⟩ := visitNeighbours_spec ih hreach (adj.getD u [])
      (fun v hv => hv) done (s.enter u) hentered (by omega)
    refine ⟨t.leave u, new, ?_, ?_, hsub⟩
    · rw [dfsBackEdges, hloop]
      rfl
    · rw [← List.append_assoc]
      exact ht.leave hnot fun v hv => hall v hv.1 hv.2

/-- All searches: afterwards every node is finished. -/
theorem searches_spec (adj : List (List Nat)) (rest : List Nat)
    (hrest : ∀ v ∈ rest, v < adj.length) :
    ∀ (done : List Nat) (s : Search), Inv (Edge adj) [] done s →
      ∃ s' new, rest.foldlM (fun s start =>
          if !s.visited start then dfsBackEdges adj adj.length start s else some s) s = some s' ∧
        Inv (Edge adj) [] (done ++ new) s' ∧ ∀ v ∈ rest, v ∈ done ++ new := by
  induction rest with
  | nil =>
    intro done s h
    refine ⟨s, [], rfl, ?_, fun v hv => absurd hv List.not_mem_nil⟩
    rw [List.append_nil]
    exact h
  | cons w rest ih =>
    intro done s h
    obtain ⟨hw, hrest⟩ := List.forall_mem_cons.mp hrest
    rw [List.foldlM_cons]
    cases hvisited : s.visited w with
    | true =>
      obtain ⟨s', new, hrun, h', hall⟩ := ih hrest done s h
      refine ⟨s', new, hrun, h', ?_⟩
      intro v hv
      rcases List.mem_cons.mp hv with rfl | hv
      · exact List.mem_append_left _
          (((h.visited v).mp hvisited).resolve_left List.not_mem_nil)
      · exact hall v hv
    | false =>
      have hfuel : unvisited (List.range adj.length) s ≤ adj.length := by
        rw [unvisited]
        exact List.countP_le_length.trans_eq List.length_range
      obtain ⟨s₁, first, hfirst, h₁, -⟩ :=
        dfsBackEdges_spec adj adj.length [] done w s hw hvisited h
        (fun g hg => absurd hg List.not_mem_nil) hfuel
      obtain ⟨s', new, hrun, h', hall⟩ := ih hrest (done ++ (first ++ [w])) s₁ h₁
      rw [List.append_assoc] at h'
      refine ⟨s', (first ++ [w]) ++ new, ?_, h', ?_⟩
      · rw [Bool.not_false, if_pos rfl, hfirst]
        exact hrun
      · intro v hv
        rcases List.mem_cons.mp hv with rfl | hv
        · simp
        · rw [← List.append_assoc]
          exact hall v hv

end Search

/-! ### Cycles -/

theorem acyclic_without_empty {E : Nat → Nat → Prop} (h : Acyclic (Without E ∅)) : Acyclic E := by
  intro x hx
  have hleft : ∀ a b, E a b → Without E ∅ a b := fun a b hab => ⟨hab, Finset.notMem_empty _⟩
  exact h x (TransGen.mono hleft x x hx)

/-- For every graph the search ends with edges of the graph that are on cycles, and without
    which there is no cycle. -/
theorem back_edges_break_cycles (adj : List (List Nat)) :
    ∃ back, computeBackEdges adj = some back ∧
      (∀ e ∈ back, Edge adj e.1 e.2 ∧ ReflTransGen (Edge adj) e.2 e.1) ∧
      Acyclic (Without (Edge adj) back) ∧ (back = ∅ ↔ Acyclic (Edge adj)) := by
  have hstart : Inv (Edge adj) [] [] (⟨fun _ => false, fun _ => false, ∅⟩ : Search) :=
    ⟨by simp, by simp, by simp, .nil, by simp⟩
  obtain ⟨s, done, hrun, h, hall⟩ := searches_spec adj (List.range adj.length)
    (fun v hv => List.mem_range.mp hv) [] _ hstart
  rw [List.nil_append] at h hall
  have hleft : Acyclic (Without (Edge adj) s.backEdges) := by
    apply h.finished.acyclic
    intro u v huv
    apply hall u
    rw [List.mem_range]
    by_contra hout
    have hnone := huv.1
    rw [List.getD_eq_getElem?_getD, List.getElem?_eq_none (Nat.le_of_not_lt hout)] at hnone
    exact absurd hnone List.not_mem_nil
  refine ⟨s.backEdges, ?_, h.back, hleft, ?_⟩
  · rw [computeBackEdges, hrun]
    rfl
  · constructor
    · intro hempty
      rw [hempty] at hleft
      exact acyclic_without_empty hleft
    · intro hacyclic
      by_contra hne
      obtain ⟨e, he⟩ := Finset.nonempty_iff_ne_empty.mpr hne
      obtain ⟨hedge, hback⟩ := h.back e he
      exact hacyclic e.1 (TransGen.head' hedge hback)

end Canon.Algorithms.BackEdges
