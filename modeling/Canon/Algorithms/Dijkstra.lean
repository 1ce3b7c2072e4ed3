import Canon.Algorithms.BellmanFord
import Canon.Lib.BestFirst

/-! # Dijkstra's algorithm

    `dijkstra` of `graph/dijkstra.rs`.  The order of a heap compares costs only, so which of
    the entries that tie is taken is left to the heap.  An addition that overflows and an
    index that is out of range are panics, `none` here.

    * `relaxRow`, `dijkstraLoop`, `dijkstra`: the function,
    * `relaxRow_eq`: a row is the row of a search without estimates,
    * `dijkstraLoop_spec`: the loop ends with every label settled,
    * `bellman_ford_dijkstra_agree`: both functions give the distances.
-/

namespace Canon.Algorithms.Dijkstra

open BellmanFord ShortestPaths BestFirst

/-! ### Model -/

def relaxRow (n cost : Nat) :
    List (Nat × Nat) → (Nat → Nat) → List (Entry Nat) →
      Option ((Nat → Nat) × List (Entry Nat))
  | [], dist, heap => some (dist, heap)
  | (next, weight) :: row, dist, heap =>
    if cost + weight ≤ u64Max then
      if next < n then
        if cost + weight < dist next then
          relaxRow n cost row (Function.update dist next (cost + weight))
            (⟨cost + weight, next⟩ :: heap)
        else relaxRow n cost row dist heap
      else none
    else none

/-- Nothing also when the fuel is spent. -/
def dijkstraLoop (H : MinHeap Nat) (adj : List (List (Nat × Nat))) :
    Nat → (Nat → Nat) → List (Entry Nat) → Option (Nat → Nat)
  | 0, _, _ => none
  | fuel + 1, dist, heap =>
    match H.pop heap with
    | none => some dist
    | some (⟨cost, position⟩, heap) =>
      if dist position < cost then dijkstraLoop H adj fuel dist heap
      else do
        let (dist, heap) ← relaxRow adj.length cost (adj.getD position []) dist heap
        dijkstraLoop H adj fuel dist heap

/-- Every turn but the last takes one entry from the heap, and every entry after the first
    one lowers a label. -/
def dijkstra (H : MinHeap Nat) (adj : List (List (Nat × Nat))) (start : Nat) :
    Option (List Nat) :=
  if start < adj.length then do
    let dist ← dijkstraLoop H adj (2 * (adj.length * u64Max) + 2)
      (Function.update (fun _ => u64Max) start 0) [⟨0, start⟩]
    some ((List.range adj.length).map dist)
  else none

/-! ### One row -/

/-- The rows of an adjacency list as a relation. -/
def RowEdge (adj : List (List (Nat × Nat))) (u weight v : Nat) : Prop :=
  (v, weight) ∈ adj.getD u []

/-- The estimate of a label is the label. -/
def noEstimate : Nat → Nat → Nat := fun _ c => c

theorem relaxRow_eq {n u : Nat} {row : List (Nat × Nat)} (st : State Nat)
    (hrow : ∀ edge ∈ row, edge.1 < n ∧ st.label u + edge.2 ≤ u64Max) :
    relaxRow n (st.label u) row st.label st.heap =
      some ((follow noEstimate u row st).label, (follow noEstimate u row st).heap) := by
  induction row generalizing st with
  | nil => rfl
  | cons edge row ih =>
    obtain ⟨hn, hsum⟩ := hrow edge List.mem_cons_self
    have hself := lower_label_self noEstimate u st edge
    have hrest := ih (lower noEstimate u st edge) (by
      intro e he
      rw [hself]
      exact hrow e (List.mem_cons_of_mem _ he))
    rw [hself] at hrest
    obtain ⟨next, weight⟩ := edge
    show _ = some ((follow noEstimate u row (lower noEstimate u st (next, weight))).label,
      (follow noEstimate u row (lower noEstimate u st (next, weight))).heap)
    rw [← hrest]
    by_cases hlt : st.label u + weight < st.label next
    · simp [relaxRow, hn, hsum, hlt, lower, noEstimate]
    · simp [relaxRow, hn, hsum, hlt, lower]

/-! ### The loop -/

section

variable {adj : List (List (Nat × Nat))} {start : Nat}

/-- A shortest path with one more edge fits a `u64`. -/
def SumsFit (adj : List (List (Nat × Nat))) (start : Nat) : Prop :=
  ∀ u weight v (n : Nat), RowEdge adj u weight v → distance (RowEdge adj) start u = (n : ℕ∞) →
    n + weight ≤ u64Max

theorem monotone_noEstimate (x : Nat) : Monotone (noEstimate x) := fun _ _ h => h

/-- A turn with an entry that is up to date: its vertex is settled, no sum overflows. -/
theorem turn_spec (hrange : ∀ u weight v, RowEdge adj u weight v → v < adj.length)
    (hfit : SumsFit adj start) {label : Nat → Nat} {parent : Nat → Option Nat}
    {heap rest : List (Entry Nat)} {e : Entry Nat}
    (h : Sound (RowEdge adj) start u64Max noEstimate (fun _ => False) (fun _ => False)
      ⟨label, parent, heap⟩)
    (hperm : heap.Perm (e :: rest)) (hleast : ∀ e' ∈ rest, e.cost ≤ e'.cost)
    (hfresh : label e.position = e.cost) :
    ∃ st, relaxRow adj.length e.cost (adj.getD e.position []) label rest =
        some (st.label, st.heap) ∧
      Sound (RowEdge adj) start u64Max noEstimate (fun _ => False) (fun _ => False) st ∧
      potential (Finset.range adj.length) st.label st.heap ≤
        potential (Finset.range adj.length) label rest := by
  have hsettled := h.inv.settled_of_pop hperm hleast le_rfl fun _ _ r _ c => Nat.le_add_right c r
  have hlabel := h.inv.labelled e (hperm.mem_iff.mpr List.mem_cons_self)
  obtain ⟨path, hwalk⟩ := h.inv.labels.sound e.position hlabel
  have hdist := distance_eq hwalk hsettled
  have hrow : ∀ edge ∈ adj.getD e.position [],
      edge.1 < adj.length ∧ label e.position + edge.2 ≤ u64Max := by
    intro edge hedge
    exact ⟨hrange _ _ _ hedge, hfit _ _ _ _ hedge hdist⟩
  refine ⟨follow noEstimate e.position (adj.getD e.position []) ⟨label, parent, rest⟩, ?_, ?_, ?_⟩
  · rw [← hfresh]
    exact relaxRow_eq ⟨label, parent, rest⟩ hrow
  · exact h.expand monotone_noEstimate hperm id fun _ _ => Iff.rfl
  · apply potential_follow noEstimate e.position ⟨label, parent, rest⟩
    intro edge hedge
    exact Finset.mem_range.mpr (hrow edge hedge).1

theorem dijkstraLoop_spec (H : MinHeap Nat)
    (hrange : ∀ u weight v, RowEdge adj u weight v → v < adj.length)
    (hfit : SumsFit adj start) {fuel : Nat} (st : State Nat)
    (h : Sound (RowEdge adj) start u64Max noEstimate (fun _ => False) (fun _ => False) st)
    (hfuel : potential (Finset.range adj.length) st.label st.heap < fuel) :
    ∃ dist, dijkstraLoop H adj fuel st.label st.heap = some dist ∧
      Labels (RowEdge adj) start u64Max dist ∧
      ∀ v, Settled (RowEdge adj) start dist v := by
  induction fuel generalizing st with
  | zero => omega
  | succ fuel ih =>
    obtain ⟨label, parent, heap⟩ := st
    change potential (Finset.range adj.length) label heap < fuel + 1 at hfuel
    show ∃ dist, dijkstraLoop H adj (fuel + 1) label heap = some dist ∧ _
    by_cases hnil : heap = []
    · subst hnil
      refine ⟨label, ?_, h.inv.labels, h.inv.settled_of_empty⟩
      simp only [dijkstraLoop, H.pop_nil]
    · obtain ⟨e, rest, hpop⟩ := H.exists_pop heap hnil
      have hperm := H.perm hpop
      have hpot := potential_perm (Finset.range adj.length) label hperm
      have hlow := h.inv.above e (hperm.mem_iff.mpr List.mem_cons_self)
      by_cases hstale : label e.position < e.cost
      -- a lower label has replaced the entry
      · have hskip := h.inv.skip hperm (Nat.ne_of_lt hstale)
        obtain ⟨dist, hrun, hspec⟩ := ih ⟨label, parent, rest⟩ ⟨hskip, h.links⟩ (by
          show potential _ label rest < fuel
          omega)
        refine ⟨dist, ?_, hspec⟩
        simp only [dijkstraLoop, hpop, hstale, if_true]
        exact hrun
      · have hfresh : label e.position = e.cost :=
          Nat.le_antisymm hlow (Nat.le_of_not_lt hstale)
        obtain ⟨next, hrow, hnext, hdrop⟩ :=
          turn_spec hrange hfit h hperm (H.least hpop) hfresh
        obtain ⟨dist, hrun, hspec⟩ := ih next hnext (by omega)
        refine ⟨dist, ?_, hspec⟩
        simp only [dijkstraLoop, hpop, hstale, if_false]
        rw [hrow]
        exact hrun

theorem dijkstra_spec (H : MinHeap Nat) (hstart : start < adj.length)
    (hrange : ∀ u weight v, RowEdge adj u weight v → v < adj.length)
    (hfit : SumsFit adj start) :
    ∃ dist, dijkstra H adj start = some ((List.range adj.length).map dist) ∧
      Labels (RowEdge adj) start u64Max dist ∧
      ∀ v, Settled (RowEdge adj) start dist v := by
  have hpot := potential_start (Finset.range adj.length) u64Max start ⟨0, start⟩
  rw [Finset.card_range] at hpot
  obtain ⟨dist, hrun, hspec⟩ := dijkstraLoop_spec H hrange hfit
    ⟨Function.update (fun _ => u64Max) start 0, fun _ => none, [⟨0, start⟩]⟩
    (.start (by decide)) (Nat.lt_succ_of_le hpot)
  refine ⟨dist, ?_, hspec⟩
  simp only [dijkstra, hstart, if_true]
  rw [hrun]
  rfl

end

/-! ### Both functions -/

/-- The rows of `adj` are the edges of the list, in any order and number. -/
def Corresponds (adj : List (List (Nat × Nat))) (v : Nat) (edges : List WeightedEdge) : Prop :=
  adj.length = v ∧ ∀ u e, e ∈ adj.getD u [] ↔ (u, e) ∈ edges

/-- The sums of the paths stay below the sentinel; of these only the shortest paths and their
    extensions by one edge matter. -/
def SumsBelow (edges : List WeightedEdge) (source : Nat) : Prop :=
  ∀ u w weight, (u, w, weight) ∈ edges → distance (BellmanFord.Edge edges) source u ≠ ⊤ →
    distance (BellmanFord.Edge edges) source u + (weight : ℕ∞) < (INF : ℕ∞)

theorem rowEdge_eq {adj : List (List (Nat × Nat))} {v : Nat} {edges : List WeightedEdge}
    (h : Corresponds adj v edges) : RowEdge adj = BellmanFord.Edge edges := by
  funext u weight w
  exact propext (h.2 u (w, weight))

/-- A vertex with a walk has a distance below the sentinel. -/
theorem SumsBelow.lt {edges : List WeightedEdge} {source v : Nat}
    (h : SumsBelow edges source) {path : List Nat} {n : Nat}
    (hwalk : Walk (BellmanFord.Edge edges) source path v n) :
    distance (BellmanFord.Edge edges) source v < (INF : ℕ∞) := by
  cases hwalk with
  | nil => exact lt_of_le_of_lt (distance_le .nil) (by decide)
  | @snoc path u _ n w hinit he =>
    have hfinite : distance (BellmanFord.Edge edges) source u ≠ ⊤ := by
      apply ne_top_of_le_ne_top (ENat.natCast_ne_top n)
      exact distance_le hinit
    obtain ⟨best, m, hbest, hdist⟩ := exists_distance_eq hinit
    have hlt := h u v w he hfinite
    rw [hdist] at hlt
    apply lt_of_le_of_lt (distance_le (hbest.snoc he))
    exact_mod_cast hlt

/-- Bellman-Ford gives the distances, those from the sentinel on as the sentinel, for every
    list of edges in range; where sums stay below the sentinel, Dijkstra's algorithm gives
    the same with the greatest `u64` for the sentinel. -/
theorem bellman_ford_dijkstra_agree {v source : Nat} {edges : List WeightedEdge}
    (hsource : source < v) (hrange : BellmanFord.InRange v edges) :
    ∃ dist, bellmanFord v edges source = some (some dist) ∧ dist.length = v ∧
      (∀ x < v, ((dist.getD x 0 : Nat) : ℕ∞) =
        min (INF : ℕ∞) (distance (BellmanFord.Edge edges) source x)) ∧
      (SumsBelow edges source → ∀ (H : MinHeap Nat) (adj : List (List (Nat × Nat))),
        Corresponds adj v edges →
        dijkstra H adj source = some (dist.map fun d => if d = INF then u64Max else d)) := by
  obtain ⟨dist, hrun, hlabels, hsettled⟩ := bellmanFord_spec hsource hrange
  refine ⟨(List.range v).map dist, hrun, by simp, ?_, ?_⟩
  · intro x hx
    have hget : ((List.range v).map dist).getD x 0 = dist x := by simp [hx]
    rw [hget]
    exact hlabels.eq_distance (hsettled x)
  · intro hbelow H adj hadj
    have hedge := rowEdge_eq hadj
    have hfit : SumsFit adj source := by
      intro u weight w n he hdist
      rw [hedge] at he hdist
      have hlt := hbelow u w weight he (by rw [hdist]; exact ENat.natCast_ne_top n)
      rw [hdist] at hlt
      have hnat : n + weight < INF := by exact_mod_cast hlt
      have hinf := inf_le
      omega
    have hends : ∀ u weight w, RowEdge adj u weight w → w < adj.length := by
      intro u weight w he
      rw [hedge] at he
      rw [hadj.1]
      exact (hrange _ he).2
    obtain ⟨dist', hrun', hlabels', hsettled'⟩ :=
      dijkstra_spec H (by rw [hadj.1]; exact hsource) hends hfit
    rw [hrun', hadj.1, List.map_map]
    congr 1
    apply List.map_congr_left
    intro x _
    have heq := hlabels.eq_distance (hsettled x)
    have heq' := hlabels'.eq_distance (hsettled' x)
    rw [hedge] at heq'
    show dist' x = if dist x = INF then u64Max else dist x
    by_cases hwalk : ∃ path n, Walk (BellmanFord.Edge edges) source path x n
    · obtain ⟨path, n, hwalk⟩ := hwalk
      have hlt := hbelow.lt hwalk
      have hle : (INF : ℕ∞) ≤ (u64Max : ℕ∞) := Nat.cast_le.mpr inf_le
      rw [min_eq_right hlt.le] at heq
      rw [min_eq_right (hlt.le.trans hle)] at heq'
      rw [← heq] at hlt heq'
      have hne : dist x ≠ INF := Nat.ne_of_lt (Nat.cast_lt.mp hlt)
      rw [if_neg hne]
      exact Nat.cast_inj.mp heq'
    · have htop : distance (BellmanFord.Edge edges) source x = ⊤ := by
        by_contra hne
        exact hwalk (exists_walk hne)
      rw [htop, min_top_right, Nat.cast_inj] at heq heq'
      rw [if_pos heq]
      exact heq'

/-- A triangle, and a vertex that it does not reach. -/
theorem bellman_ford_dijkstra_agree_triangle :
    bellmanFord 4 [(0, 2, 9), (1, 2, 3), (0, 1, 2)] 0 = some (some [0, 2, 5, INF]) ∧
      dijkstra .sorted [[(2, 9), (1, 2)], [(2, 3)], [], []] 0 = some [0, 2, 5, u64Max] := by
  have hrun : bellmanFord 4 [(0, 2, 9), (1, 2, 3), (0, 1, 2)] 0 =
      some (some [0, 2, 5, INF]) := by decide +kernel
  obtain ⟨dist, hdist, _, _, hdijkstra⟩ := @bellman_ford_dijkstra_agree 4 0
    [(0, 2, 9), (1, 2, 3), (0, 1, 2)] (by decide) (by unfold BellmanFord.InRange; decide)
  rw [hrun, Option.some.injEq, Option.some.injEq] at hdist
  subst hdist
  refine ⟨hrun, hdijkstra ?_ .sorted _ ?_⟩
  · intro u w weight he _
    have hone : Walk (BellmanFord.Edge [(0, 2, 9), (1, 2, 3), (0, 1, 2)]) 0 [0, 1] 1 2 :=
      Walk.nil.snoc (n := 0) (w := 2) (by simp [Edge])
    have hcases : u = 0 ∧ weight ≤ 9 ∨ u = 1 ∧ weight ≤ 9 := by
      rcases List.mem_cons.mp he with heq | he
      · cases heq
        decide
      · rcases List.mem_cons.mp he with heq | he
        · cases heq
          decide
        · cases List.mem_singleton.mp he
          decide
    have hsmall : ∀ n ≤ 2, ((n : Nat) : ℕ∞) + (weight : ℕ∞) < (INF : ℕ∞) := by
      intro n hn
      have hinf : 11 < INF := by decide
      have hlt : n + weight < INF := by omega
      exact_mod_cast hlt
    rcases hcases with ⟨rfl, _⟩ | ⟨rfl, _⟩
    · exact lt_of_le_of_lt (add_le_add_left (distance_le .nil) _) (hsmall 0 (by decide))
    · exact lt_of_le_of_lt (add_le_add_left (distance_le hone) _) (hsmall 2 (by decide))
  · refine ⟨rfl, ?_⟩
    intro u e
    match u with
    | 0 => simp [or_comm]
    | 1 => simp
    | 2 => simp
    | 3 => simp
    | u + 4 => simp

end Canon.Algorithms.Dijkstra
