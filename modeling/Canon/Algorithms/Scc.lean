import Mathlib.Data.List.Induction
import Canon.Lib.Components
import Canon.Lib.DepthFirst

/-! # Kosaraju's algorithm

    `kosaraju_scc` of `graph/scc.rs`.  A first search writes the nodes in the order in which
    it finishes them; a second one on the reversed edges starts from the last of them and
    collects one component from each node that is not collected yet.

    * `kosarajuScc`: the algorithm, with its two searches and the reversed lists,
    * `Collected`: the invariant of the second pass,
    * `kosarajuScc_partition`: the components are those of the graph, in topological order.
-/

namespace Canon.Algorithms.Scc

open Components DepthFirst Relation

variable (adj : List (List Nat))

/-! ### Model -/

def neighbours (v : Nat) : List Nat := adj.getD v []

/-- The nodes that have a mark; the code panics at the mark of any other. -/
def marked (v : Nat) : Bool := v < adj.length

def dfsFinish : Nat → Nat → Search Nat → Option (Search Nat) :=
  visit (marked adj) (neighbours adj) false

def dfsCollect : Nat → Nat → Search Nat → Option (Search Nat) :=
  visit (marked adj) (neighbours adj) true

/-- The reversed edges, for neighbours in range. -/
def reversed : List (List Nat) :=
  adj.zipIdx.foldl
    (fun rev e => e.1.foldl (fun rev u => rev.modify u fun row => row ++ [e.2]) rev)
    (List.replicate adj.length [])

/-- A node of the second pass. -/
def collectRoot (rev : List (List Nat)) (fuel : Nat) (st : (Nat → Bool) × List (List Nat))
    (v : Nat) : Option ((Nat → Bool) × List (List Nat)) :=
  if st.1 v then some st
  else do
    let s ← dfsCollect rev fuel v ⟨st.1, []⟩
    pure (s.visited, st.2 ++ [s.out])

/-- Nothing where the code panics, and when the fuel of a search is spent. -/
def kosarajuScc : Option (List (List Nat)) :=
  let n := adj.length
  if n = 0 then some []
  else do
    let s ← (List.range n).foldlM
      (fun s v => if s.visited v then some s else dfsFinish adj n v s) ⟨fun _ => false, []⟩
    let st ← s.out.reverse.foldlM (collectRoot (reversed adj) n) (fun _ => false, [])
    pure st.2

/-- An edge of the lists. -/
def Edge (v u : Nat) : Prop := u ∈ neighbours adj v

def InRange : Prop := ∀ row ∈ adj, ∀ u ∈ row, u < adj.length

/-- No edge leads from a later component to an earlier one. -/
def Topological (E : Nat → Nat → Prop) (comps : List (List Nat)) : Prop :=
  comps.Pairwise fun earlier later => ∀ x ∈ later, ∀ y ∈ earlier, ¬ E x y

/-! ### Edges -/

theorem edge_iff {adj : List (List Nat)} {v u : Nat} :
    Edge adj v u ↔ ∃ row, adj[v]? = some row ∧ u ∈ row := by
  rw [Edge, neighbours, List.getD_eq_getElem?_getD]
  cases h : adj[v]? with
  | none => simp
  | some row => simp

theorem edge_range {adj : List (List Nat)} (hrange : InRange adj) {v u : Nat}
    (h : Edge adj v u) : v < adj.length ∧ u < adj.length := by
  obtain ⟨row, hrow, hu⟩ := edge_iff.mp h
  obtain ⟨hv, rfl⟩ := List.getElem?_eq_some_iff.mp hrow
  exact ⟨hv, hrange _ (List.getElem_mem hv) u hu⟩

section Reversed

variable {rev : List (List Nat)} {v w u : Nat}

theorem edge_modify (hu : u < rev.length) (i : Nat) :
    Edge (rev.modify i fun row => row ++ [v]) u w ↔ Edge rev u w ∨ i = u ∧ w = v := by
  rw [edge_iff, edge_iff, List.getElem?_modify, List.getElem?_eq_getElem hu]
  by_cases h : i = u
  · simp [h]
  · simp [h]

/-- The edges of one row. -/
def pushRow (v : Nat) (rev : List (List Nat)) (row : List Nat) : List (List Nat) :=
  row.foldl (fun rev i => rev.modify i fun row => row ++ [v]) rev

theorem length_pushRow (v : Nat) (rev : List (List Nat)) (row : List Nat) :
    (pushRow v rev row).length = rev.length := by
  induction row generalizing rev with
  | nil => rfl
  | cons i row ih => exact (ih _).trans (List.length_modify ..)

theorem edge_pushRow (row : List Nat) (hu : u < rev.length) :
    Edge (pushRow v rev row) u w ↔ Edge rev u w ∨ u ∈ row ∧ w = v := by
  induction row generalizing rev with
  | nil => simp [pushRow]
  | cons i row ih =>
    have hlength : u < (rev.modify i fun row => row ++ [v]).length := by
      rw [List.length_modify]
      exact hu
    show Edge (pushRow v (rev.modify i fun row => row ++ [v]) row) u w ↔ _
    rw [ih hlength, edge_modify hu, List.mem_cons, or_assoc, or_and_right, @eq_comm _ i u]

theorem length_pushRows (rows : List (List Nat × Nat)) (rev : List (List Nat)) :
    (rows.foldl (fun rev e => pushRow e.2 rev e.1) rev).length = rev.length := by
  induction rows generalizing rev with
  | nil => rfl
  | cons e rows ih => exact (ih _).trans (length_pushRow ..)

theorem edge_pushRows (rows : List (List Nat × Nat)) (hu : u < rev.length) :
    Edge (rows.foldl (fun rev e => pushRow e.2 rev e.1) rev) u w ↔
      Edge rev u w ∨ ∃ e ∈ rows, u ∈ e.1 ∧ w = e.2 := by
  induction rows generalizing rev with
  | nil => simp
  | cons e rows ih =>
    have hlength : u < (pushRow e.2 rev e.1).length := by
      rw [length_pushRow]
      exact hu
    rw [List.foldl_cons, ih hlength, edge_pushRow e.1 hu, or_assoc]
    simp

theorem reversed_eq (adj : List (List Nat)) : reversed adj =
    adj.zipIdx.foldl (fun rev e => pushRow e.2 rev e.1) (List.replicate adj.length []) := rfl

theorem length_reversed (adj : List (List Nat)) : (reversed adj).length = adj.length := by
  rw [reversed_eq, length_pushRows, List.length_replicate]

theorem edge_reversed {adj : List (List Nat)} (hrange : InRange adj) :
    Edge (reversed adj) u w ↔ Edge adj w u := by
  have hrows : (∃ e ∈ adj.zipIdx, u ∈ e.1 ∧ w = e.2) ↔ Edge adj w u := by
    rw [edge_iff]
    constructor
    · intro ⟨e, he, hu, hw⟩
      rw [hw]
      exact ⟨e.1, List.mem_zipIdx_iff_getElem?.mp he, hu⟩
    · intro ⟨row, hrow, hu⟩
      exact ⟨(row, w), List.mem_zipIdx_iff_getElem?.mpr hrow, hu, rfl⟩
  have hlength := length_reversed adj
  by_cases hu : u < adj.length
  · have hempty : ¬ Edge (List.replicate adj.length []) u w := by
      rw [edge_iff, List.getElem?_replicate, if_pos hu]
      simp
    rw [reversed_eq, edge_pushRows _ (by rw [List.length_replicate]; exact hu), hrows]
    simp [hempty]
  -- Out of range there is no row, and no edge leads there.
  · constructor
    · intro h
      obtain ⟨row, hrow, -⟩ := edge_iff.mp h
      obtain ⟨hlt, -⟩ := List.getElem?_eq_some_iff.mp hrow
      omega
    · intro h
      exact absurd (edge_range hrange h).2 hu

end Reversed

/-! ### The second pass -/

/-- The collected nodes are whole components that no edge enters from outside. -/
structure Collected (adj : List (List Nat)) (done : List Nat)
    (st : (Nat → Bool) × List (List Nat)) : Prop where
  visited : ∀ x, st.1 x = true ↔ x ∈ st.2.flatten
  range : ∀ x, st.1 x = true → x < adj.length
  done : ∀ x ∈ done, st.1 x = true
  closed : ∀ x, st.1 x = true → ∀ y, Edge adj y x → st.1 y = true
  nodup : st.2.flatten.Nodup
  component : ∀ comp ∈ st.2, IsComponent (Edge adj) comp
  topological : Topological (Edge adj) st.2

variable {adj : List (List Nat)} {st : (Nat → Bool) × List (List Nat)}

/-- A search on the reversed edges from the last node that is not collected finds exactly
    the component of the node. -/
theorem collected_component {before after : List Nat} {v : Nat} {s' : Search Nat}
    {new : List Nat} (hrange : InRange adj)
    (horder : FinishOrder (Edge adj) (before ++ v :: after))
    (hnodes : ∀ x, x < adj.length → x ∈ before ++ v :: after)
    (h : Collected adj after st) (hv : st.1 v = false)
    (hnew : Explored (neighbours (reversed adj)) true [v] ⟨st.1, []⟩ s' new) (y : Nat) :
    y ∈ new ↔ Mutual (Edge adj) v y := by
  have hback : ∀ {x y}, y ∈ neighbours (reversed adj) x → Edge adj y x := fun hy =>
    (edge_reversed hrange).mp hy
  have hclosed : ∀ x, s'.visited x = true → ∀ y, Edge adj y x → s'.visited y = true := by
    intro x hx y hy
    rcases (hnew.visited x).mp hx with hx | hx
    · exact hnew.mono (h.closed x hx y hy)
    · exact hnew.closed x hx y ((edge_reversed hrange).mpr hy)
  constructor
  · intro hy
    obtain ⟨u, hu, -, hpath⟩ := hnew.reached y hy
    rw [List.mem_singleton.mp hu] at hpath
    have hto : ReflTransGen (Edge adj) y v := by
      have hswap : ReflTransGen (fun a b => Edge adj b a) v y :=
        ReflTransGen.lift (p := fun a b => Edge adj b a) id (fun a b hab => hback hab.1) v y hpath
      exact (reflTransGen_swap (r := Edge adj)).mp hswap
    refine ⟨horder.reaches_back rfl (hpath.lift id ?_), hto⟩
    -- A node of the path is not collected, so it was not finished after `v`.
    intro a b hab
    refine ⟨hback hab.1, ?_⟩
    have hb := hnodes b (edge_range hrange (hback hab.1)).1
    rcases List.mem_append.mp hb with hb | hb
    · exact .inl hb
    · rcases List.mem_cons.mp hb with hb | hb
      · exact .inr hb
      · have hmark := h.done b hb
        rw [show st.1 b = false from hab.2] at hmark
        cases hmark
  · intro hmutual
    have hstart : s'.visited v = true := hnew.covered v (List.mem_singleton_self v)
    have hy : s'.visited y = true :=
      @of_reaches _ _ (fun x => s'.visited x = true) (fun a b hba ha => hclosed a ha b hba) _ _
        hmutual.2 hstart
    rcases (hnew.visited y).mp hy with hold | hy
    · have hmark : st.1 v = true :=
        @of_reaches _ _ (fun x => st.1 x = true) (fun a b hba ha => h.closed a ha b hba) _ _
          hmutual.1 hold
      rw [hv] at hmark
      cases hmark
    · exact hy

theorem collectRoot_spec {before after : List Nat} {v : Nat} (hrange : InRange adj)
    (horder : FinishOrder (Edge adj) (before ++ v :: after))
    (hnodes : ∀ x, x < adj.length ↔ x ∈ before ++ v :: after)
    (h : Collected adj after st) :
    ∃ st', collectRoot (reversed adj) adj.length st v = some st' ∧
      Collected adj (v :: after) st' := by
  cases hv : st.1 v with
  | true =>
    refine ⟨st, by rw [collectRoot, if_pos hv], { h with done := ?_ }⟩
    intro x hx
    rcases List.mem_cons.mp hx with rfl | hx
    · exact hv
    · exact h.done x hx
  | false =>
    have hknown : ∀ x ∈ List.range adj.length, marked (reversed adj) x = true := by
      intro x hx
      rw [marked, length_reversed]
      exact decide_eq_true (List.mem_range.mp hx)
    have hnext : ∀ x ∈ List.range adj.length, ∀ y ∈ neighbours (reversed adj) x,
        y ∈ List.range adj.length := by
      intro x _ y hy
      exact List.mem_range.mpr (edge_range hrange ((edge_reversed hrange).mp hy)).1
    have hmem : v ∈ List.range adj.length := List.mem_range.mpr ((hnodes v).mpr (by simp))
    have hfuel : unmarked (List.range adj.length) (⟨st.1, []⟩ : Search Nat) ≤ adj.length := by
      rw [unmarked]
      exact List.countP_le_length.trans_eq List.length_range
    obtain ⟨s', new, hrun, hnew⟩ : ∃ s' new,
        dfsCollect (reversed adj) adj.length v ⟨st.1, []⟩ = some s' ∧
          Explored (neighbours (reversed adj)) true [v] ⟨st.1, []⟩ s' new :=
      visit_explored hknown hnext adj.length v ⟨st.1, []⟩ hmem hv hfuel
    have hout : s'.out = new := hnew.out
    have hmem_new := collected_component hrange horder (fun x hx => (hnodes x).mp hx) h hv hnew
    have hold : ∀ x, x ∈ st.2.flatten → st.1 x = true := fun x hx => (h.visited x).mpr hx
    refine ⟨(s'.visited, st.2 ++ [new]), ?_, ?_⟩
    · rw [collectRoot, if_neg (by rw [hv]; decide), hrun, ← hout]
      rfl
    · refine ⟨?_, ?_, ?_, ?_, ?_, ?_, ?_⟩
      · intro x
        rw [hnew.visited, List.flatten_append, List.mem_append, List.flatten_singleton]
        exact or_congr_left (h.visited x)
      · intro x hx
        rcases (hnew.visited x).mp hx with hx | hx
        · exact h.range x hx
        · obtain ⟨u, hu, -, hpath⟩ := hnew.reached x hx
          cases hpath with
          | refl =>
            rw [List.mem_singleton.mp hu]
            exact List.mem_range.mp hmem
          | tail _ hstep => exact (edge_range hrange ((edge_reversed hrange).mp hstep.1)).1
      · intro x hx
        rcases List.mem_cons.mp hx with rfl | hx
        · exact hnew.covered x (List.mem_singleton_self x)
        · exact hnew.mono (h.done x hx)
      · intro x hx y hy
        rcases (hnew.visited x).mp hx with hx | hx
        · exact hnew.mono (h.closed x hx y hy)
        · exact hnew.closed x hx y ((edge_reversed hrange).mpr hy)
      · rw [List.flatten_append, List.flatten_singleton]
        apply h.nodup.append hnew.nodup
        intro x hx hx'
        have hfresh : st.1 x = false := hnew.fresh x hx'
        rw [hold x hx] at hfresh
        cases hfresh
      · intro comp hcomp
        rcases List.mem_append.mp hcomp with hcomp | hcomp
        · exact h.component comp hcomp
        · rw [List.mem_singleton.mp hcomp]
          exact isComponent_of_root ((hmem_new v).mpr (Mutual.refl _ v)) hmem_new
      · refine List.pairwise_append.mpr ⟨h.topological, List.pairwise_singleton _ _, ?_⟩
        -- What leads into a collected component is collected with it or before it.
        intro comp hcomp later hlater x hx y hy hedge
        rw [List.mem_singleton.mp hlater] at hx
        have hmark := h.closed y (hold y (List.mem_flatten.mpr ⟨comp, hcomp, hy⟩)) x hedge
        have hfresh : st.1 x = false := hnew.fresh x hx
        rw [hmark] at hfresh
        cases hfresh

/-- The whole second pass. -/
theorem collectRoots_spec (hrange : InRange adj) {order : List Nat}
    (horder : FinishOrder (Edge adj) order) (hnodes : ∀ x, x < adj.length ↔ x ∈ order)
    (before : List Nat) : ∀ (after : List Nat) (st : (Nat → Bool) × List (List Nat)),
      order = before ++ after → Collected adj after st →
        ∃ st', before.reverse.foldlM (collectRoot (reversed adj) adj.length) st = some st' ∧
          Collected adj order st' := by
  induction before using List.reverseRecOn with
  | nil =>
    intro after st hsplit h
    refine ⟨st, rfl, ?_⟩
    rw [hsplit]
    exact h
  | append_singleton before v ih =>
    intro after st hsplit h
    have hsplit' : order = before ++ v :: after := by
      rw [hsplit, List.append_assoc]
      rfl
    rw [hsplit'] at horder hnodes
    obtain ⟨st₁, hroot, h₁⟩ := collectRoot_spec hrange horder hnodes h
    rw [← hsplit'] at horder hnodes
    obtain ⟨st', hrest, h'⟩ := ih (v :: after) st₁ hsplit' h₁
    refine ⟨st', ?_, h'⟩
    rw [List.reverse_append, List.reverse_singleton, List.singleton_append, List.foldlM_cons,
      hroot]
    exact hrest

/-! ### The algorithm -/

/-- The loop over the nodes is a search from all of them. -/
theorem firstPass_eq (adj : List (List Nat)) (fuel : Nat) (s : Search Nat) :
    (List.range adj.length).foldlM
        (fun s v => if s.visited v then some s else dfsFinish adj fuel v s) s =
      visitAll (marked adj) (neighbours adj) false fuel (List.range adj.length) s := by
  have hrest : ∀ (rest : List Nat), (∀ v ∈ rest, v < adj.length) → ∀ s : Search Nat,
      rest.foldlM (fun s v => if s.visited v then some s else dfsFinish adj fuel v s) s =
        visitAll (marked adj) (neighbours adj) false fuel rest s := by
    intro rest
    induction rest with
    | nil => exact fun _ _ => rfl
    | cons v rest ih =>
      intro hrange s
      obtain ⟨hv, hrange⟩ := List.forall_mem_cons.mp hrange
      have hpass : ¬ (!marked adj v) = true := by
        rw [marked, decide_eq_true hv]
        decide
      rw [visitAll, List.foldlM_cons, List.foldlM_cons, if_neg hpass]
      congr 1
      funext s'
      exact ih hrange s'
  exact hrest _ (fun v hv => List.mem_range.mp hv) s

/-- The first pass writes every node once, in an order of finishing. -/
theorem finish_order (hrange : InRange adj) :
    ∃ s : Search Nat, (List.range adj.length).foldlM
        (fun s v => if s.visited v then some s else dfsFinish adj adj.length v s)
        ⟨fun _ => false, []⟩ = some s ∧
      FinishOrder (Edge adj) s.out ∧ ∀ x, x < adj.length ↔ x ∈ s.out := by
  have hknown : ∀ x ∈ List.range adj.length, marked adj x = true :=
    fun x hx => decide_eq_true (List.mem_range.mp hx)
  have hnext : ∀ x ∈ List.range adj.length, ∀ y ∈ neighbours adj x,
      y ∈ List.range adj.length := fun x _ y hy =>
    List.mem_range.mpr (edge_range hrange hy).2
  have hfuel : unmarked (List.range adj.length) (⟨fun _ => false, []⟩ : Search Nat) ≤
      adj.length := by
    rw [unmarked]
    exact List.countP_le_length.trans_eq List.length_range
  obtain ⟨s, new, hrun, hnew⟩ : ∃ s new,
      visitAll (marked adj) (neighbours adj) false adj.length (List.range adj.length)
        ⟨fun _ => false, []⟩ = some s ∧
      Explored (neighbours adj) false (List.range adj.length) ⟨fun _ => false, []⟩ s new :=
    visitAll_explored hknown hnext (fun _ hu => hu) hfuel
  have hout : s.out = new := hnew.out
  refine ⟨s, (firstPass_eq adj adj.length _).trans hrun,
    hnew.ordered rfl (fun x hx => absurd hx List.not_mem_nil) .nil, ?_⟩
  intro x
  rw [hout]
  constructor
  · intro hx
    have hmark := hnew.covered x (List.mem_range.mpr hx)
    exact ((hnew.visited x).mp hmark).resolve_left (by simp)
  · intro hx
    -- A node of the search is a root, or an edge leads to it.
    obtain ⟨u, hu, -, hpath⟩ := hnew.reached x hx
    cases hpath with
    | refl => exact List.mem_range.mp hu
    | tail _ hstep => exact (edge_range hrange hstep.1).2

/-- A neighbour that is out of range makes the first pass panic: every node is searched. -/
theorem inRange_of_kosarajuScc {comps : List (List Nat)} (h : kosarajuScc adj = some comps) :
    InRange adj := by
  intro row hrow u hu
  obtain ⟨v, hv, hget⟩ := List.mem_iff_getElem.mp hrow
  have hn : ¬ adj.length = 0 := by omega
  rw [kosarajuScc] at h
  simp only [hn, if_false] at h
  obtain ⟨s, hfirst, -⟩ := Option.bind_eq_some_iff.mp h
  rw [firstPass_eq] at hfirst
  obtain ⟨hknows, hall⟩ := visitAll_knows hfirst
  rcases hknows.marked v (hall v (List.mem_range.mpr hv)).2 with hfalse | hknown
  · cases hfalse
  · apply of_decide_eq_true
    apply hknown u
    rw [neighbours, List.getD_eq_getElem?_getD, List.getElem?_eq_getElem hv, Option.getD_some, hget]
    exact hu

/-- For every graph in range the algorithm returns the components, in topological order. -/
theorem kosarajuScc_partition (hrange : InRange adj) :
    ∃ comps, kosarajuScc adj = some comps ∧
      IsPartition (Edge adj) (fun x => x < adj.length) comps ∧ Topological (Edge adj) comps := by
  rw [kosarajuScc]
  by_cases hn : adj.length = 0
  · refine ⟨[], by simp only [hn, if_true], ⟨List.nodup_nil, ?_, ?_⟩, List.Pairwise.nil⟩
    · intro x
      simp [hn]
    · intro comp hcomp
      exact absurd hcomp List.not_mem_nil
  · obtain ⟨s, hfirst, horder, hnodes⟩ := finish_order hrange
    have hempty : Collected adj [] (fun _ => false, []) := by
      refine ⟨by simp, by simp, by simp, by simp, by simp, by simp, List.Pairwise.nil⟩
    obtain ⟨st, hsecond, h⟩ := collectRoots_spec hrange horder hnodes s.out [] (fun _ => false, [])
      (List.append_nil _).symm hempty
    refine ⟨st.2, ?_, ⟨h.nodup, ?_, h.component⟩, h.topological⟩
    · simp only [hn, if_false, hfirst]
      rw [Option.bind_eq_bind, Option.bind_some, hsecond]
      rfl
    · intro x
      constructor
      · intro hx
        exact h.range x ((h.visited x).mpr hx)
      · intro hx
        exact (h.visited x).mp (h.done x ((hnodes x).mp hx))

end Canon.Algorithms.Scc
