import Mathlib.Data.ENat.Lattice

/-! # Shortest paths

    Edges carry natural numbers as weights.  An algorithm keeps a label for each vertex, at
    most `cap`, and lowers labels along edges.

    * `Walk`, `distance`: walks with their sums, and the least sum to a vertex,
    * `Labels`: every label below the cap is the sum of a walk,
    * `Labels.eq_distance`: a label that no walk undercuts is the distance, up to the cap,
    * `exists_next`: an edge that is due, as long as some label is too high.
-/

namespace ShortestPaths

variable {α : Type*}

/-- A walk from `s`: the vertices it visits, where it ends and the sum of its weights. -/
inductive Walk (E : α → Nat → α → Prop) (s : α) : List α → α → Nat → Prop where
  | nil : Walk E s [s] s 0
  | snoc {path : List α} {u v : α} {n w : Nat} (h : Walk E s path u n) (he : E u w v) :
      Walk E s (path ++ [v]) v (n + w)

/-- The least sum of a walk from `s`; infinite where there is none. -/
noncomputable def distance (E : α → Nat → α → Prop) (s v : α) : ℕ∞ :=
  ⨅ (n : Nat) (_ : ∃ path, Walk E s path v n), (n : ℕ∞)

section Distance

variable {E : α → Nat → α → Prop} {s v : α} {path : List α} {n : Nat}

theorem distance_le (h : Walk E s path v n) : distance E s v ≤ n :=
  iInf₂_le n ⟨path, h⟩

theorem le_distance {b : ℕ∞} (h : ∀ path m, Walk E s path v m → b ≤ (m : ℕ∞)) :
    b ≤ distance E s v := by
  apply le_iInf₂
  intro m hm
  obtain ⟨path, hwalk⟩ := hm
  exact h path m hwalk

/-- A walk that no other undercuts. -/
theorem distance_eq (h : Walk E s path v n) (hleast : ∀ path m, Walk E s path v m → n ≤ m) :
    distance E s v = n := by
  apply le_antisymm (distance_le h)
  apply le_distance
  intro path m hm
  exact Nat.cast_le.mpr (hleast path m hm)

/-- The distance of a vertex that is reached is the sum of a walk. -/
theorem exists_distance_eq (h : Walk E s path v n) :
    ∃ path m, Walk E s path v m ∧ distance E s v = m := by
  classical
  have hex : ∃ m, ∃ path, Walk E s path v m := ⟨n, path, h⟩
  obtain ⟨least, hwalk⟩ := Nat.find_spec hex
  refine ⟨least, Nat.find hex, hwalk, distance_eq hwalk ?_⟩
  intro other m hm
  exact Nat.find_min' hex ⟨other, hm⟩

theorem exists_walk (h : distance E s v ≠ ⊤) : ∃ path m, Walk E s path v m := by
  by_contra hnone
  apply h
  apply top_le_iff.mp
  apply le_distance
  intro path m hm
  exact absurd ⟨path, m, hm⟩ hnone

end Distance

/-! ### Labels -/

structure Labels (E : α → Nat → α → Prop) (s : α) (cap : Nat) (d : α → Nat) : Prop where
  start : d s = 0
  le_cap : ∀ v, d v ≤ cap
  sound : ∀ v, d v < cap → ∃ path, Walk E s path v (d v)

/-- No walk to the vertex has a smaller sum than its label. -/
def Settled (E : α → Nat → α → Prop) (s : α) (d : α → Nat) (v : α) : Prop :=
  ∀ path n, Walk E s path v n → d v ≤ n

/-- No edge out of the vertex lowers a label. -/
def Relaxed (E : α → Nat → α → Prop) (d : α → Nat) (u : α) : Prop :=
  ∀ w v, E u w v → d v ≤ d u + w

section

variable {E : α → Nat → α → Prop} {s : α} {cap : Nat} {d : α → Nat}

theorem Labels.settled_start (h : Labels E s cap d) : Settled E s d s := by
  intro path n _
  have hstart := h.start
  omega

theorem settled_of_relaxed (h : Labels E s cap d) (hrelaxed : ∀ u, Relaxed E d u) (v : α) :
    Settled E s d v := by
  intro path n hwalk
  induction hwalk with
  | nil => exact h.start.le
  | @snoc path u v n w _ he ih =>
    have hle := hrelaxed u w v he
    omega

theorem Labels.eq_distance (h : Labels E s cap d) {v : α} (hv : Settled E s d v) :
    (d v : ℕ∞) = min (cap : ℕ∞) (distance E s v) := by
  apply le_antisymm
  · apply le_min
    · exact Nat.cast_le.mpr (h.le_cap v)
    · apply le_distance
      intro path n hwalk
      exact Nat.cast_le.mpr (hv path n hwalk)
  · by_cases hcap : d v < cap
    · obtain ⟨path, hwalk⟩ := h.sound v hcap
      exact (min_le_right _ _).trans (distance_le hwalk)
    · have heq : d v = cap := Nat.le_antisymm (h.le_cap v) (Nat.le_of_not_lt hcap)
      rw [heq]
      exact min_le_left _ _

/-- Lowering a label along an edge. -/
theorem Labels.relax [DecidableEq α] (h : Labels E s cap d) {u v : α} {w : Nat} (he : E u w v)
    (hu : d u < cap) (hlt : d u + w < d v) :
    Labels E s cap (Function.update d v (d u + w)) := by
  have hne : s ≠ v := by
    intro heq
    have hstart := h.start
    rw [← heq] at hlt
    omega
  constructor
  · rw [Function.update_of_ne hne]
    exact h.start
  · intro x
    by_cases hx : x = v
    · have hcap := h.le_cap v
      rw [hx, Function.update_self]
      omega
    · rw [Function.update_of_ne hx]
      exact h.le_cap x
  · intro x hlabel
    by_cases hx : x = v
    · rw [hx, Function.update_self]
      obtain ⟨path, hwalk⟩ := h.sound u hu
      exact ⟨_, hwalk.snoc he⟩
    · rw [Function.update_of_ne hx] at hlabel ⊢
      exact h.sound x hlabel

/-- Where a label is too high, some edge from a settled vertex is the last of a shortest walk
    to an unsettled one. -/
theorem exists_next (h : Labels E s cap d) {v : α} (hv : ¬ Settled E s d v) :
    ∃ u w x, Settled E s d u ∧ E u w x ∧ ¬ Settled E s d x ∧
      ∀ path n, Walk E s path x n → d u + w ≤ n := by
  -- a shortest walk to `v`; its first unsettled vertex is what is looked for
  have hwalk : ∃ path n, Walk E s path v n := by
    by_contra hnone
    apply hv
    intro path n hwalk
    exact absurd ⟨path, n, hwalk⟩ hnone
  obtain ⟨path, n, hwalk⟩ := hwalk
  obtain ⟨least, m, hleast, hdist⟩ := exists_distance_eq hwalk
  have hmin : ∀ path n, Walk E s path v n → m ≤ n := by
    intro path n hwalk
    have hle := distance_le hwalk
    rw [hdist] at hle
    exact Nat.cast_le.mp hle
  clear hdist hwalk
  induction hleast with
  | nil => exact absurd h.settled_start hv
  | @snoc path u v m w hinit he ih =>
    by_cases hu : Settled E s d u
    · refine ⟨u, w, v, hu, he, hv, ?_⟩
      intro path' n hwalk
      have hlabel := hu path m hinit
      have hle := hmin path' n hwalk
      omega
    · apply ih hu
      intro path' n hwalk
      have hle := hmin _ _ (hwalk.snoc he)
      omega

end

end ShortestPaths
