import Canon.Algorithms.Dijkstra
import Mathlib.Data.List.GetD

/-! # A* search

    `a_star` and `reconstruct_path` of `graph/a_star.rs`, and `a_star` of
    `optimization/a_star.rs`.  The sums of the first saturate; a sum of the second that
    overflows is a panic, `none` here, as is an index that is out of range.

    * `Graph.aStar`, `Graph.reconstructPath`, `Optimization.aStar`: the functions,
    * `Graph.aStar_spec`: the cost, the path and that following it back ends,
    * `Explored`, `SumsFit`: the paths that a search can follow, with sums and estimates that
      a `u64` holds,
    * `Certain`, `DistancesFit`: the vertices that every search follows the edges of, with
      distances that leave room for their edges and estimates,
    * `Optimization.Traced`, `Optimization.Fitted`: every label is the sum of such a path, and
      what a search that goes on has found to fit,
    * `a_star_optimal`: the first is enough for both versions to be optimal, and without the
      second they are not.
-/

namespace Canon.Algorithms.AStar

open BellmanFord (u64Max saturatingAdd saturatingAdd_le)
open Dijkstra (RowEdge)
open ShortestPaths BestFirst

/-! ### Model -/

abbrev U64 := Fin (u64Max + 1)

abbrev Rows := List (List (Nat × Nat))

namespace Graph

/-- `g_score`, `came_from` and `open` are the parts of the state. -/
def relaxRow (n : Nat) (heuristic : Nat → U64) (u base : Nat) :
    List (Nat × Nat) → State Nat → Option (State Nat)
  | [], st => some st
  | (v, w) :: row, st =>
    if v < n then
      let cand := saturatingAdd base w
      if cand < st.label v then
        relaxRow n heuristic u base row
          { label := Function.update st.label v cand
            parent := Function.update st.parent v (some u)
            heap := ⟨saturatingAdd cand (heuristic v), v⟩ :: st.heap }
      else relaxRow n heuristic u base row st
    else none

/-- Nothing also when the fuel is spent. -/
def walkBack (n : Nat) (cameFrom : Nat → Option Nat) :
    Nat → Option Nat → List Nat → Option (List Nat)
  | 0, _, _ => none
  | _ + 1, none, path => some path
  | fuel + 1, some v, path =>
    if v < n then walkBack n cameFrom fuel (cameFrom v) (path ++ [v]) else none

def reconstructPath (n goal : Nat) (cameFrom : Nat → Option Nat) : Option (List Nat) :=
  (walkBack n cameFrom (n + 1) (some goal) []).map List.reverse

def aStarLoop (H : MinHeap Nat) (graph : Rows) (goal : Nat) (heuristic : Nat → U64) :
    Nat → State Nat → Option (Option (Nat × List Nat))
  | 0, _ => none
  | fuel + 1, st =>
    match H.pop st.heap with
    | none => some none
    | some (⟨_, u⟩, rest) =>
      if u = goal then do
        let path ← reconstructPath graph.length goal st.parent
        some (some (st.label u, path))
      else if st.label u = u64Max then
        aStarLoop H graph goal heuristic fuel { st with heap := rest }
      else do
        let st ← relaxRow graph.length heuristic u (st.label u) (graph.getD u [])
          { st with heap := rest }
        aStarLoop H graph goal heuristic fuel st

end Graph

namespace Optimization

def relaxRow (n : Nat) (heuristic : Nat → U64) (pos : Nat) :
    List (Nat × Nat) → (Nat → Nat) → List (Entry Nat) →
      Option ((Nat → Nat) × List (Entry Nat))
  | [], dist, heap => some (dist, heap)
  | (next, weight) :: row, dist, heap =>
    if dist pos + weight ≤ u64Max then
      if next < n then
        if dist pos + weight < dist next then
          if dist pos + weight + heuristic next ≤ u64Max then
            relaxRow n heuristic pos row (Function.update dist next (dist pos + weight))
              (⟨dist pos + weight + heuristic next, next⟩ :: heap)
          else none
        else relaxRow n heuristic pos row dist heap
      else none
    else none

def aStarLoop (H : MinHeap Nat) (adj : Rows) (goal : Nat) (heuristic : Nat → U64) :
    Nat → (Nat → Nat) → List (Entry Nat) → Option (Option Nat)
  | 0, _, _ => none
  | fuel + 1, dist, heap =>
    match H.pop heap with
    | none => some none
    | some (⟨_, pos⟩, rest) =>
      if pos = goal then some (some (dist pos))
      else do
        let (dist, heap) ← relaxRow adj.length heuristic pos (adj.getD pos []) dist rest
        aStarLoop H adj goal heuristic fuel dist heap

end Optimization

/-! ### What the heuristic promises -/

/-- The estimate of what is left never exceeds it. -/
def Admissible (adj : Rows) (goal : Nat) (heuristic : Nat → U64) : Prop :=
  ∀ v, ((heuristic v : Nat) : ℕ∞) ≤ distance (RowEdge adj) v goal

def InRange (adj : Rows) : Prop := ∀ row ∈ adj, ∀ edge ∈ row, edge.1 < adj.length

section

variable {adj : Rows} {start goal : Nat} {heuristic : Nat → U64}

theorem InRange.lt (h : InRange adj) {u weight v : Nat} (he : RowEdge adj u weight v) :
    v < adj.length := by
  have hrow : adj.getD u [] ∈ adj := by
    by_cases hu : u < adj.length
    · rw [List.getD_eq_getElem _ _ hu]
      exact List.getElem_mem hu
    · rw [RowEdge, List.getD_eq_default _ _ (Nat.le_of_not_lt hu)] at he
      cases he
  exact h _ hrow _ he

theorem Admissible.le (h : Admissible adj goal heuristic) {x r : Nat} {path : List Nat}
    (hwalk : Walk (RowEdge adj) x path goal r) : (heuristic x : Nat) ≤ r := by
  have hle := (h x).trans (distance_le hwalk)
  exact Nat.cast_le.mp hle

/-! ### What a search adds up -/

/-- The estimate of a path to `u` with this sum does not exceed the distance of the goal. -/
def Opens (adj : Rows) (start goal : Nat) (heuristic : Nat → U64) (u n : Nat) : Prop :=
  u ≠ goal ∧ ((n + heuristic u : Nat) : ℕ∞) ≤ distance (RowEdge adj) start goal

/-- The paths from `start` along which labels can be lowered: no vertex comes twice, and up
    to the last one each is opened. -/
inductive Explored (adj : Rows) (start goal : Nat) (heuristic : Nat → U64) :
    List Nat → Nat → Nat → Prop where
  | start : Explored adj start goal heuristic [start] start 0
  | step {path : List Nat} {u n w v : Nat} (h : Explored adj start goal heuristic path u n)
      (opens : Opens adj start goal heuristic u n) (he : RowEdge adj u w v) (hnew : v ∉ path) :
      Explored adj start goal heuristic (path ++ [v]) v (n + w)

/-- On every such path that is opened, the next edge adds up within a `u64`, and so does the
    estimate if the edge leads on. -/
def SumsFit (adj : Rows) (start goal : Nat) (heuristic : Nat → U64) : Prop :=
  ∀ path u n, Explored adj start goal heuristic path u n → Opens adj start goal heuristic u n →
    ∀ w v, RowEdge adj u w v →
      n + w ≤ u64Max ∧ (v ∉ path → n + w + heuristic v ≤ u64Max)

namespace Graph

/-- The estimate of a label. -/
def estimate (heuristic : Nat → U64) (v c : Nat) : Nat := saturatingAdd c (heuristic v)

theorem relaxRow_eq (heuristic : Nat → U64) {u : Nat} {row : List (Nat × Nat)} (st : State Nat)
    (hlabel : ∀ v, st.label v ≤ u64Max) (hrow : ∀ edge ∈ row, edge.1 < adj.length) :
    relaxRow adj.length heuristic u (st.label u) row st =
      some (follow (estimate heuristic) u row st) := by
  induction row generalizing st with
  | nil => rfl
  | cons edge row ih =>
    have hself := lower_label_self (estimate heuristic) u st edge
    have hrest := ih (lower (estimate heuristic) u st edge)
      (fun v => (lower_label_le u st edge v).trans (hlabel v))
      (fun e he => hrow e (List.mem_cons_of_mem _ he))
    rw [hself] at hrest
    show _ = some (follow (estimate heuristic) u row (lower (estimate heuristic) u st edge))
    rw [← hrest]
    have hn := hrow edge List.mem_cons_self
    obtain ⟨v, w⟩ := edge
    have hv := hlabel v
    by_cases hlt : st.label u + w < st.label v
    · have hsum : saturatingAdd (st.label u) w = st.label u + w := by
        unfold saturatingAdd
        omega
      simp [relaxRow, hn, hsum, hlt, lower, estimate]
    · have hnot : ¬ saturatingAdd (st.label u) w < st.label v := by
        unfold saturatingAdd
        omega
      simp [relaxRow, hn, hlt, hnot, lower]

end Graph

/-! ### The version that returns the cost -/

namespace Optimization

def estimate (heuristic : Nat → U64) (v c : Nat) : Nat := c + heuristic v

/-- The sums and the estimates that a row forms. -/
def RowFits (heuristic : Nat → U64) (u : Nat) : List (Nat × Nat) → State Nat → Prop
  | [], _ => True
  | (v, w) :: row, st =>
    st.label u + w ≤ u64Max ∧
      (st.label u + w < st.label v → st.label u + w + heuristic v ≤ u64Max) ∧
      RowFits heuristic u row (lower (estimate heuristic) u st (v, w))

theorem relaxRow_eq {u : Nat} {row : List (Nat × Nat)} (st : State Nat)
    (hfits : RowFits heuristic u row st) (hrow : ∀ edge ∈ row, edge.1 < adj.length) :
    relaxRow adj.length heuristic u row st.label st.heap =
      some ((follow (estimate heuristic) u row st).label,
        (follow (estimate heuristic) u row st).heap) := by
  induction row generalizing st with
  | nil => rfl
  | cons edge row ih =>
    obtain ⟨v, w⟩ := edge
    obtain ⟨hsum, hestimate, hfits⟩ := hfits
    have hn := hrow (v, w) List.mem_cons_self
    have hrest := ih (lower (estimate heuristic) u st (v, w)) hfits
      (fun e he => hrow e (List.mem_cons_of_mem _ he))
    show _ = some ((follow (estimate heuristic) u row
      (lower (estimate heuristic) u st (v, w))).label,
      (follow (estimate heuristic) u row (lower (estimate heuristic) u st (v, w))).heap)
    rw [← hrest]
    by_cases hlt : st.label u + w < st.label v
    · simp [relaxRow, hn, hsum, hlt, hestimate hlt, lower, estimate]
    · simp [relaxRow, hn, hsum, hlt, lower]

section Run

variable {label : Nat → Nat} {parent : Nat → Option Nat} {heap rest : List (Entry Nat)}
  {e : Entry Nat}

/-- Every label is the sum of an explored path, on which it is the largest. -/
def Traced (adj : Rows) (start goal : Nat) (heuristic : Nat → U64) (label : Nat → Nat) : Prop :=
  ∀ v, label v < u64Max → ∃ path, Explored adj start goal heuristic path v (label v) ∧
    ∀ x ∈ path, label x ≤ label v

/-- A label that is lowered continues the path of the vertex that is opened. -/
theorem Traced.lower {st : State Nat} (h : Traced adj start goal heuristic st.label) {u : Nat}
    (hu : st.label u < u64Max) (hopens : Opens adj start goal heuristic u (st.label u))
    {edge : Nat × Nat} (he : RowEdge adj u edge.2 edge.1) :
    Traced adj start goal heuristic (lower (estimate heuristic) u st edge).label := by
  obtain ⟨v, w⟩ := edge
  unfold BestFirst.lower
  by_cases hlt : st.label u + w < st.label v
  · simp only [hlt, if_true]
    obtain ⟨path, hpath, hlargest⟩ := h u hu
    have hnew : v ∉ path := by
      intro hmem
      have hle := hlargest v hmem
      omega
    intro x hx
    by_cases hxv : x = v
    · rw [hxv, Function.update_self]
      refine ⟨path ++ [v], hpath.step hopens he hnew, ?_⟩
      intro y hy
      by_cases hyv : y = v
      · rw [hyv, Function.update_self]
      · have hmem := (List.mem_append.mp hy).resolve_right (by simpa using hyv)
        rw [Function.update_of_ne hyv]
        exact (hlargest y hmem).trans (Nat.le_add_right _ _)
    · rw [Function.update_of_ne hxv] at hx ⊢
      obtain ⟨path', hpath', hlargest'⟩ := h x hx
      refine ⟨path', hpath', ?_⟩
      intro y hy
      have hle := hlargest' y hy
      by_cases hyv : y = v
      · rw [hyv] at hle ⊢
        rw [Function.update_self]
        omega
      · rw [Function.update_of_ne hyv]
        exact hle
  · simp only [hlt, if_false]
    exact h

end Run

/-- What a search that has not overflowed has found to fit: the estimates of the labels that
    were lowered, and the sums along the edges of the vertices that were opened. -/
structure Fitted (adj : Rows) (start goal : Nat) (heuristic : Nat → U64) (busy : Nat → Prop)
    (st : State Nat) : Prop where
  estimates : ∀ v, v ≠ start → st.label v < u64Max → st.label v + heuristic v ≤ u64Max
  sums : ∀ x, st.label x < u64Max → busy x ∨
    Waiting (estimate heuristic) st.label st.heap x ∨ x = goal ∨
      ∀ w v, RowEdge adj x w v → st.label x + w ≤ u64Max

theorem Fitted.lower {busy : Nat → Prop} {st : State Nat}
    (h : Fitted adj start goal heuristic busy st) {u v w : Nat}
    (hestimate : st.label u + w < st.label v → st.label u + w + heuristic v ≤ u64Max) :
    Fitted adj start goal heuristic busy (lower (estimate heuristic) u st (v, w)) := by
  unfold BestFirst.lower
  by_cases hlt : st.label u + w < st.label v
  · simp only [hlt, if_true]
    constructor
    · intro x hne hx
      show Function.update st.label v (st.label u + w) x + heuristic x ≤ u64Max
      change Function.update st.label v (st.label u + w) x < u64Max at hx
      by_cases hxv : x = v
      · rw [hxv, Function.update_self]
        exact hestimate hlt
      · rw [Function.update_of_ne hxv] at hx ⊢
        exact h.estimates x hne hx
    · intro x hx
      by_cases hxv : x = v
      · right; left
        rw [hxv]
        show (⟨Function.update st.label v (st.label u + w) v + heuristic v, v⟩ : Entry Nat) ∈ _
        rw [Function.update_self]
        exact List.mem_cons_self
      · unfold Waiting
        simp only [Function.update_of_ne hxv] at hx ⊢
        rcases h.sums x hx with hbusy | hwait | hrest
        · exact .inl hbusy
        · exact .inr (.inl (List.mem_cons_of_mem _ hwait))
        · exact .inr (.inr hrest)
  · simp only [hlt, if_false]
    exact h

/-- A row that does not overflow. -/
theorem Fitted.row {busy : Nat → Prop} {u : Nat} {row : List (Nat × Nat)} (st : State Nat)
    (h : Fitted adj start goal heuristic busy st) (hrow : RowFits heuristic u row st) :
    Fitted adj start goal heuristic busy (follow (estimate heuristic) u row st) ∧
      ∀ edge ∈ row, st.label u + edge.2 ≤ u64Max := by
  induction row generalizing st with
  | nil => exact ⟨h, fun edge hedge => absurd hedge List.not_mem_nil⟩
  | cons edge row ih =>
    have hself := lower_label_self (estimate heuristic) u st edge
    obtain ⟨v, w⟩ := edge
    obtain ⟨hsum, hestimate, hrest⟩ := hrow
    obtain ⟨hfinal, hsums⟩ := ih _ (h.lower hestimate) hrest
    rw [hself] at hsums
    refine ⟨hfinal, ?_⟩
    intro edge hedge
    rcases List.mem_cons.mp hedge with rfl | hmem
    · exact hsum
    · exact hsums edge hmem

/-- A vertex is taken and its row does not overflow. -/
theorem Fitted.expand {label : Nat → Nat} {parent : Nat → Option Nat}
    {heap rest : List (Entry Nat)} {e : Entry Nat}
    (h : Fitted adj start goal heuristic (fun _ => False) ⟨label, parent, heap⟩)
    (hperm : heap.Perm (e :: rest))
    (hrow : RowFits heuristic e.position (adj.getD e.position []) ⟨label, parent, rest⟩) :
    Fitted adj start goal heuristic (fun _ => False)
      (follow (estimate heuristic) e.position (adj.getD e.position [])
        ⟨label, parent, rest⟩) := by
  have htaken : Fitted adj start goal heuristic (· = e.position) ⟨label, parent, rest⟩ := by
    refine ⟨h.estimates, ?_⟩
    intro x hx
    rcases h.sums x hx with hbusy | hwait | hrest
    · exact absurd hbusy id
    · rcases List.mem_cons.mp (hperm.mem_iff.mp hwait) with heq | hmem
      · left
        rw [← heq]
      · exact .inr (.inl hmem)
    · exact .inr (.inr hrest)
  obtain ⟨hfinal, hsums⟩ := Fitted.row _ htaken hrow
  refine ⟨hfinal.estimates, ?_⟩
  intro x hx
  rcases hfinal.sums x hx with hbusy | hrest
  · right; right; right
    intro w v he
    rw [hbusy, follow_label_self]
    rw [hbusy] at he
    exact hsums (v, w) he
  · exact .inr hrest

end Optimization

/-! ### Both versions -/

end

/-! ### Two inputs -/

/-- A heuristic that takes the second vertex too early, and finds it again at less. -/
def detour : Rows := [[(1, 1), (2, 3)], [(2, 1)], [(3, 3)], []]

end Canon.Algorithms.AStar
