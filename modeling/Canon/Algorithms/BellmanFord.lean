import Canon.Lib.ShortestPaths

/-! # Bellman-Ford shortest paths

    `bellman_ford` of `graph/bellman_ford.rs`.  Every pass relaxes the edges in the order of
    the list; an index that is out of range is a panic, `none` here.

    * `relaxEdges`, `passes`, `stillRelaxes`, `bellmanFord`: the function,
    * `relaxEdges_spec`: what one pass does,
    * `passes_spec`: a pass settles one more vertex, so that all are settled in the end,
    * `bellmanFord_spec`: the labels are the distances, up to the sentinel.
-/

namespace Canon.Algorithms.BellmanFord

open ShortestPaths

/-! ### Model -/

def u64Max : Nat := 2 ^ 64 - 1

/-- The sentinel for unreachable vertices. -/
def INF : Nat := u64Max / 2

def saturatingAdd (a b : Nat) : Nat := min (a + b) u64Max

/-- The start, the end and the weight of an edge. -/
abbrev WeightedEdge := Nat × Nat × Nat

/-- One pass over the edges, with whether a label was lowered. -/
def relaxEdges (n : Nat) :
    List WeightedEdge → (Nat → Nat) → Bool → Option ((Nat → Nat) × Bool)
  | [], dist, updated => some (dist, updated)
  | (u, w, weight) :: edges, dist, updated =>
    if u < n then
      if dist u ≠ INF then
        if w < n then
          let candidate := saturatingAdd (dist u) weight
          if candidate < dist w then
            relaxEdges n edges (Function.update dist w candidate) true
          else relaxEdges n edges dist updated
        else none
      else relaxEdges n edges dist updated
    else none

def passes (n : Nat) (edges : List WeightedEdge) : Nat → (Nat → Nat) → Option (Nat → Nat)
  | 0, dist => some dist
  | count + 1, dist => do
    let (dist, updated) ← relaxEdges n edges dist false
    if updated then passes n edges count dist else some dist

/-- The last pass: whether some edge still relaxes. -/
def stillRelaxes (n : Nat) (dist : Nat → Nat) : List WeightedEdge → Option Bool
  | [] => some false
  | (u, w, weight) :: edges =>
    if u < n then
      if dist u ≠ INF then
        if w < n then
          if saturatingAdd (dist u) weight < dist w then some true
          else stillRelaxes n dist edges
        else none
      else stillRelaxes n dist edges
    else none

def bellmanFord (v : Nat) (edges : List WeightedEdge) (source : Nat) :
    Option (Option (List Nat)) :=
  if source < v then
    if v = 0 then some (some [])
    else do
      let dist ← passes v edges (v - 1) (Function.update (fun _ => INF) source 0)
      let negative ← stillRelaxes v dist edges
      if negative then some none else some (some ((List.range v).map dist))
  else none

/-! ### One pass -/

/-- The edges as a relation. -/
def Edge (edges : List WeightedEdge) (u weight w : Nat) : Prop := (u, w, weight) ∈ edges

def InRange (n : Nat) (edges : List WeightedEdge) : Prop := ∀ e ∈ edges, e.1 < n ∧ e.2.1 < n

variable {n source : Nat} {edges : List WeightedEdge} {dist : Nat → Nat}

theorem saturatingAdd_le (a b : Nat) : saturatingAdd a b ≤ a + b := min_le_left _ _

/-- A sum that lowers a label did not saturate. -/
theorem saturatingAdd_eq {a b c : Nat} (h : saturatingAdd a b < c) (hc : c ≤ u64Max) :
    saturatingAdd a b = a + b := by
  unfold saturatingAdd at h ⊢
  omega

theorem inf_le : INF ≤ u64Max := by decide

theorem relaxEdges_spec {l : List WeightedEdge} (hl : l ⊆ edges) (hrange : InRange n edges)
    (h : Labels (Edge edges) source INF dist) (updated : Bool) :
    ∃ dist' updated', relaxEdges n l dist updated = some (dist', updated') ∧
      Labels (Edge edges) source INF dist' ∧ (∀ x, dist' x ≤ dist x) ∧
      (∀ u w weight, (u, w, weight) ∈ l → dist' w ≤ dist u + weight) ∧
      (updated' = false → updated = false ∧ dist' = dist) := by
  induction l generalizing dist updated with
  | nil => exact ⟨dist, updated, rfl, h, fun _ => le_rfl, by simp, fun hu => ⟨hu, rfl⟩⟩
  | cons e l ih =>
    obtain ⟨u, w, weight⟩ := e
    have he : Edge edges u weight w := hl List.mem_cons_self
    obtain ⟨hu, hw⟩ := hrange _ (hl List.mem_cons_self)
    have hsub : l ⊆ edges := fun e he => hl (List.mem_cons_of_mem _ he)
    have hcapu := h.le_cap u
    have hcapw := h.le_cap w
    -- where the edge lowers nothing, its bound holds already
    have hkeep : dist w ≤ dist u + weight → relaxEdges n ((u, w, weight) :: l) dist updated =
        relaxEdges n l dist updated →
        ∃ dist' updated', relaxEdges n ((u, w, weight) :: l) dist updated =
            some (dist', updated') ∧
          Labels (Edge edges) source INF dist' ∧ (∀ x, dist' x ≤ dist x) ∧
          (∀ u' w' weight', (u', w', weight') ∈ (u, w, weight) :: l →
            dist' w' ≤ dist u' + weight') ∧
          (updated' = false → updated = false ∧ dist' = dist) := by
      intro hbound heq
      obtain ⟨dist', updated', hrun, hlabels, hle, hedge, hsame⟩ := ih hsub h updated
      refine ⟨dist', updated', heq.trans hrun, hlabels, hle, ?_, hsame⟩
      intro u' w' weight' hmem
      rcases List.mem_cons.mp hmem with heq | hmem
      · cases heq
        exact (hle w).trans hbound
      · exact hedge u' w' weight' hmem
    by_cases hinf : dist u = INF
    · apply hkeep
      · omega
      · simp [relaxEdges, hu, hinf]
    · by_cases hlt : saturatingAdd (dist u) weight < dist w
      · have hsum := saturatingAdd_eq hlt (hcapw.trans inf_le)
        rw [hsum] at hlt
        have hlow := h.relax he (by omega) hlt
        obtain ⟨dist', updated', hrun, hlabels, hle, hedge, hsame⟩ := ih hsub hlow true
        have hdown : ∀ x, Function.update dist w (dist u + weight) x ≤ dist x := by
          intro x
          by_cases hx : x = w
          · rw [hx, Function.update_self]
            omega
          · rw [Function.update_of_ne hx]
        refine ⟨dist', updated', ?_, hlabels, ?_, ?_, ?_⟩
        · simpa [relaxEdges, hu, hw, hinf, hsum, hlt] using hrun
        · intro x
          exact (hle x).trans (hdown x)
        · intro u' w' weight' hmem
          rcases List.mem_cons.mp hmem with heq | hmem
          · cases heq
            have hat := hle w
            rwa [Function.update_self] at hat
          · exact (hedge u' w' weight' hmem).trans (Nat.add_le_add_right (hdown u') _)
        · intro hfalse
          exact absurd (hsame hfalse).1 (by decide)
      · apply hkeep
        · have hle := saturatingAdd_le (dist u) weight
          omega
        · simp [relaxEdges, hu, hw, hinf, hlt]

/-! ### All passes -/

open Classical in
/-- The vertices whose labels are too high. -/
noncomputable def unsettled (n : Nat) (edges : List WeightedEdge) (source : Nat)
    (dist : Nat → Nat) : Finset Nat :=
  (Finset.range n).filter fun v => ¬ Settled (Edge edges) source dist v

theorem mem_unsettled {v : Nat} :
    v ∈ unsettled n edges source dist ↔ v < n ∧ ¬ Settled (Edge edges) source dist v := by
  simp [unsettled]

/-- As long as a label is too high, one is too high in range. -/
theorem settled_of_unsettled_empty (hrange : InRange n edges)
    (h : Labels (Edge edges) source INF dist) (hempty : unsettled n edges source dist = ∅)
    (v : Nat) : Settled (Edge edges) source dist v := by
  by_contra hv
  obtain ⟨u, w, x, _, he, hx, _⟩ := exists_next h hv
  have hmem : x ∈ unsettled n edges source dist := mem_unsettled.mpr ⟨(hrange _ he).2, hx⟩
  rw [hempty] at hmem
  exact absurd hmem (Finset.notMem_empty x)

theorem card_unsettled_lt {dist' : Nat → Nat} (hrange : InRange n edges)
    (h : Labels (Edge edges) source INF dist) (hle : ∀ x, dist' x ≤ dist x)
    (hedge : ∀ u w weight, (u, w, weight) ∈ edges → dist' w ≤ dist u + weight)
    {v : Nat} (hv : ¬ Settled (Edge edges) source dist v) :
    (unsettled n edges source dist').card < (unsettled n edges source dist).card := by
  obtain ⟨u, weight, x, _, he, hx, hleast⟩ := exists_next h hv
  apply Finset.card_lt_card
  apply Finset.ssubset_iff_of_subset _ |>.mpr
  · refine ⟨x, mem_unsettled.mpr ⟨(hrange _ he).2, hx⟩, ?_⟩
    intro hmem
    apply (mem_unsettled.mp hmem).2
    intro path m hwalk
    exact (hedge u x weight he).trans (hleast path m hwalk)
  · intro y hy
    obtain ⟨hyn, hy⟩ := mem_unsettled.mp hy
    apply mem_unsettled.mpr ⟨hyn, ?_⟩
    intro hsettled
    apply hy
    intro path m hwalk
    exact (hle y).trans (hsettled path m hwalk)

theorem passes_spec (hrange : InRange n edges) {count : Nat}
    (h : Labels (Edge edges) source INF dist)
    (hcount : (unsettled n edges source dist).card ≤ count) :
    ∃ dist', passes n edges count dist = some dist' ∧
      Labels (Edge edges) source INF dist' ∧
      ∀ v, Settled (Edge edges) source dist' v := by
  induction count generalizing dist with
  | zero =>
    have hempty : unsettled n edges source dist = ∅ := Finset.card_eq_zero.mp (by omega)
    exact ⟨dist, rfl, h, settled_of_unsettled_empty hrange h hempty⟩
  | succ count ih =>
    obtain ⟨dist', updated, hrun, hlabels, hle, hedge, hsame⟩ :=
      relaxEdges_spec (List.Subset.refl edges) hrange h false
    cases updated with
    | false =>
      -- nothing was lowered, so that every vertex is relaxed
      obtain ⟨_, heq⟩ := hsame rfl
      refine ⟨dist', by simp [passes, hrun], hlabels, ?_⟩
      apply settled_of_relaxed hlabels
      intro u weight w he
      have hbound := hedge u w weight he
      rwa [← heq] at hbound
    | true =>
      have hcard : (unsettled n edges source dist').card ≤ count := by
        by_cases hall : ∀ v, Settled (Edge edges) source dist v
        · have hempty : unsettled n edges source dist' = ∅ := by
            apply Finset.eq_empty_of_forall_notMem
            intro y hy
            apply (mem_unsettled.mp hy).2
            intro path m hwalk
            exact (hle y).trans (hall y path m hwalk)
          rw [hempty]
          exact Nat.zero_le _
        · obtain ⟨v, hv⟩ := not_forall.mp hall
          have hlt := card_unsettled_lt hrange h hle hedge hv
          omega
      obtain ⟨final, hfinal, hspec⟩ := ih hlabels hcard
      exact ⟨final, by simp [passes, hrun, hfinal], hspec⟩

theorem stillRelaxes_spec {l : List WeightedEdge} (hl : l ⊆ edges) (hrange : InRange n edges)
    (h : Labels (Edge edges) source INF dist)
    (hsettled : ∀ v, Settled (Edge edges) source dist v) :
    stillRelaxes n dist l = some false := by
  induction l with
  | nil => rfl
  | cons e l ih =>
    obtain ⟨u, w, weight⟩ := e
    have he : Edge edges u weight w := hl List.mem_cons_self
    obtain ⟨hu, hw⟩ := hrange _ (hl List.mem_cons_self)
    have hrest := ih fun e he => hl (List.mem_cons_of_mem _ he)
    have hcapu := h.le_cap u
    by_cases hinf : dist u = INF
    · simpa [stillRelaxes, hu, hinf] using hrest
    · have hnot : ¬ saturatingAdd (dist u) weight < dist w := by
        intro hlt
        have hsum := saturatingAdd_eq hlt ((h.le_cap w).trans inf_le)
        -- the label of `u` is the sum of a walk, which the edge extends
        obtain ⟨path, hwalk⟩ := h.sound u (by omega)
        have hle := hsettled w _ _ (hwalk.snoc he)
        omega
      simpa [stillRelaxes, hu, hw, hinf, hnot] using hrest

theorem labels_start (edges : List WeightedEdge) (source : Nat) :
    Labels (Edge edges) source INF (Function.update (fun _ => INF) source 0) := by
  constructor
  · exact Function.update_self ..
  · intro v
    by_cases hv : v = source
    · rw [hv, Function.update_self]
      exact Nat.zero_le _
    · rw [Function.update_of_ne hv]
  · intro v hlt
    by_cases hv : v = source
    · rw [hv, Function.update_self]
      exact ⟨_, .nil⟩
    · rw [Function.update_of_ne hv] at hlt
      omega

theorem bellmanFord_spec {v : Nat} (hsource : source < v) (hrange : InRange v edges) :
    ∃ dist, bellmanFord v edges source = some (some ((List.range v).map dist)) ∧
      Labels (Edge edges) source INF dist ∧ ∀ x, Settled (Edge edges) source dist x := by
  have hstart := labels_start edges source
  have hcard : (unsettled v edges source (Function.update (fun _ => INF) source 0)).card ≤
      v - 1 := by
    have hsub : unsettled v edges source (Function.update (fun _ => INF) source 0) ⊆
        (Finset.range v).erase source := by
      intro x hx
      obtain ⟨hxv, hx⟩ := mem_unsettled.mp hx
      apply Finset.mem_erase.mpr ⟨?_, Finset.mem_range.mpr hxv⟩
      intro heq
      rw [heq] at hx
      exact hx hstart.settled_start
    have hle := Finset.card_le_card hsub
    rwa [Finset.card_erase_of_mem (Finset.mem_range.mpr hsource), Finset.card_range] at hle
  obtain ⟨dist, hrun, hlabels, hsettled⟩ := passes_spec hrange hstart hcard
  have hlast := stillRelaxes_spec (List.Subset.refl edges) hrange hlabels hsettled
  have hv : v ≠ 0 := by omega
  refine ⟨dist, ?_, hlabels, hsettled⟩
  simp [bellmanFord, hsource, hv, hrun, hlast]

end Canon.Algorithms.BellmanFord
