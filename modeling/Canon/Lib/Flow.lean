import Mathlib.Algebra.Order.BigOperators.Group.Finset

/-! # Flows and cuts

    A network gives each ordered pair of vertices a capacity.

    * `IsFlow`, `gain`: flows, and what a vertex keeps of what flows into it,
    * `IsCut`, `cutCapacity`: cuts between the source and the sink,
    * `gain_le_cutCapacity`: no flow is worth more than a cut.
-/

namespace Flow

variable {V : Type*} [Fintype V] [DecidableEq V]

structure IsFlow (C : V → V → Int) (s t : V) (f : V → V → Int) : Prop where
  nonneg : ∀ u v, 0 ≤ f u v
  le_capacity : ∀ u v, f u v ≤ C u v
  conserved : ∀ v, v ≠ s → v ≠ t → ∑ u, f u v = ∑ w, f v w

/-- What flows into a vertex less what flows out of it; of the sink, the value of a flow. -/
def gain (f : V → V → Int) (v : V) : Int := ∑ u, f u v - ∑ w, f v w

def IsCut (s t : V) (S : Finset V) : Prop := s ∈ S ∧ t ∉ S

def cutCapacity (C : V → V → Int) (S : Finset V) : Int := ∑ u ∈ S, ∑ v ∈ Sᶜ, C u v

/-- The greatest value of a flow and the least capacity of a cut are both `value`. -/
structure IsMaxFlow (C : V → V → Int) (s t : V) (value : Int) : Prop where
  flow : ∃ f, IsFlow C s t f ∧ gain f t = value
  flow_le : ∀ f, IsFlow C s t f → gain f t ≤ value
  cut : ∃ S, IsCut s t S ∧ cutCapacity C S = value
  le_cut : ∀ S, IsCut s t S → value ≤ cutCapacity C S

/-- What a set of vertices keeps crosses its border. -/
theorem sum_gain (f : V → V → Int) (S : Finset V) :
    ∑ v ∈ Sᶜ, gain f v = ∑ u ∈ S, ∑ v ∈ Sᶜ, f u v - ∑ u ∈ Sᶜ, ∑ v ∈ S, f u v := by
  have hin : ∑ v ∈ Sᶜ, ∑ u, f u v =
      ∑ u ∈ S, ∑ v ∈ Sᶜ, f u v + ∑ u ∈ Sᶜ, ∑ v ∈ Sᶜ, f u v := by
    rw [Finset.sum_comm]
    exact (Finset.sum_add_sum_compl S fun u => ∑ v ∈ Sᶜ, f u v).symm
  have hout : ∑ v ∈ Sᶜ, ∑ w, f v w =
      ∑ u ∈ Sᶜ, ∑ v ∈ S, f u v + ∑ u ∈ Sᶜ, ∑ v ∈ Sᶜ, f u v := by
    rw [← Finset.sum_add_distrib]
    apply Finset.sum_congr rfl
    intro u _
    exact (Finset.sum_add_sum_compl S (f u)).symm
  unfold gain
  rw [Finset.sum_sub_distrib, hin, hout]
  omega

variable {C : V → V → Int} {s t : V} {f : V → V → Int} {S : Finset V}

/-- The value of a flow is what crosses a cut. -/
theorem IsFlow.gain_eq (h : IsFlow C s t f) (hcut : IsCut s t S) :
    gain f t = ∑ u ∈ S, ∑ v ∈ Sᶜ, f u v - ∑ u ∈ Sᶜ, ∑ v ∈ S, f u v := by
  rw [← sum_gain]
  symm
  apply Finset.sum_eq_single t
  · intro v hv hne
    have hs : v ≠ s := by
      intro heq
      rw [heq] at hv
      exact Finset.mem_compl.mp hv hcut.1
    unfold gain
    rw [h.conserved v hs hne]
    omega
  · intro ht
    exact absurd (Finset.mem_compl.mpr hcut.2) ht

theorem IsFlow.gain_le_cutCapacity (h : IsFlow C s t f) (hcut : IsCut s t S) :
    gain f t ≤ cutCapacity C S := by
  rw [h.gain_eq hcut]
  have hforth : ∑ u ∈ S, ∑ v ∈ Sᶜ, f u v ≤ cutCapacity C S := by
    apply Finset.sum_le_sum
    intro u _
    apply Finset.sum_le_sum
    intro v _
    exact h.le_capacity u v
  have hback : 0 ≤ ∑ u ∈ Sᶜ, ∑ v ∈ S, f u v := by
    apply Finset.sum_nonneg
    intro u _
    apply Finset.sum_nonneg
    intro v _
    exact h.nonneg u v
  omega

/-- A flow and a cut of the same value bound each other. -/
theorem isMaxFlow_of_eq (h : IsFlow C s t f) (hcut : IsCut s t S)
    (heq : gain f t = cutCapacity C S) : IsMaxFlow C s t (gain f t) where
  flow := ⟨f, h, rfl⟩
  flow_le := by
    intro f' h'
    rw [heq]
    exact h'.gain_le_cutCapacity hcut
  cut := ⟨S, hcut, heq.symm⟩
  le_cut := fun _ hcut' => h.gain_le_cutCapacity hcut'

end Flow
