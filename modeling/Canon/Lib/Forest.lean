import Mathlib.Data.Finset.Card
import Mathlib.Data.Nat.Find

/-! # Forests of parent pointers

    A function gives every element its parent; a root is its own parent.  Two updates keep the
    roots that they should: pointing an element at its root changes no root, and pointing a
    root at another moves its class there.

    * `Climbs`: so many steps lead to a root, and more do not leave it,
    * `RootOf`, `RootOf.unique`: the root of an element,
    * `Climbs.compress`, `Climbs.link`: the two updates,
    * `RootOf.climbs_card`: a bound on the steps.
-/

namespace Canon.Lib.Forest

variable {α : Type*} {parent : α → α} {x y r s : α} {k : Nat}

/-- So many steps lead from the element to the root. -/
def Climbs (parent : α → α) (k : Nat) (x r : α) : Prop := parent^[k] x = r ∧ parent r = r

def RootOf (parent : α → α) (x r : α) : Prop := ∃ k, Climbs parent k x r

/-- Following parents ends everywhere. -/
def Acyclic (parent : α → α) : Prop := ∀ x, ∃ r, RootOf parent x r

theorem Climbs.mono {k' : Nat} (h : Climbs parent k x r) (hle : k ≤ k') :
    Climbs parent k' x r := by
  obtain ⟨d, rfl⟩ := Nat.exists_eq_add_of_le hle
  refine ⟨?_, h.2⟩
  rw [Nat.add_comm, Function.iterate_add_apply, h.1]
  exact Function.iterate_fixed h.2 d

theorem Climbs.step (h : Climbs parent (k + 1) x r) : Climbs parent k (parent x) r := by
  refine ⟨?_, h.2⟩
  rw [← Function.iterate_succ_apply]
  exact h.1

theorem climbs_succ (h : Climbs parent k (parent x) r) : Climbs parent (k + 1) x r := by
  refine ⟨?_, h.2⟩
  rw [Function.iterate_succ_apply]
  exact h.1

theorem climbs_root (h : parent r = r) (k : Nat) : Climbs parent k r r :=
  ⟨Function.iterate_fixed h k, h⟩

theorem RootOf.unique (h : RootOf parent x r) (h' : RootOf parent x s) : r = s := by
  obtain ⟨k, hk⟩ := h
  obtain ⟨k', hk'⟩ := h'
  have hr := hk.mono (Nat.le_max_left k k')
  have hs := hk'.mono (Nat.le_max_right k k')
  exact hr.1.symm.trans hs.1

theorem RootOf.fixed (h : RootOf parent x r) : parent r = r := h.choose_spec.2

theorem rootOf_self (h : parent r = r) : RootOf parent r r := ⟨0, climbs_root h 0⟩

/-- Inside a finite set that the parents do not leave, fewer steps than elements are enough:
    the elements on the way are all different. -/
theorem RootOf.climbs_card {S : Finset α} (h : RootOf parent x r) (hx : x ∈ S)
    (hclosed : ∀ y ∈ S, parent y ∈ S) : Climbs parent (S.card - 1) x r := by
  classical
  have hleast := Nat.find_spec h
  have hmin : ∀ m < Nat.find h, ¬ Climbs parent m x r := fun m hm => Nat.find_min h hm
  have hinside : ∀ m, parent^[m] x ∈ S := by
    intro m
    induction m with
    | zero => exact hx
    | succ m ih =>
      rw [Function.iterate_succ_apply']
      exact hclosed _ ih
  have hdifferent : Set.InjOn (fun m => parent^[m] x) (Finset.range (Nat.find h + 1)) := by
    -- An element met twice would leave fewer steps to the root.
    have hless : ∀ m m', m < m' → m' ≤ Nat.find h → parent^[m] x ≠ parent^[m'] x := by
      intro m m' hlt hle heq
      apply hmin (m + (Nat.find h - m')) (by omega)
      refine ⟨?_, hleast.2⟩
      rw [Nat.add_comm, Function.iterate_add_apply, heq, ← Function.iterate_add_apply,
        Nat.sub_add_cancel hle]
      exact hleast.1
    intro m hm m' hm' heq
    rw [Finset.coe_range, Set.mem_Iio] at hm hm'
    by_contra hne
    rcases Nat.lt_or_gt_of_ne hne with hlt | hlt
    · exact hless m m' hlt (by omega) heq
    · exact hless m' m hlt (by omega) heq.symm
  have hcard := Finset.card_le_card_of_injOn (fun m => parent^[m] x)
    (fun m _ => hinside m) hdifferent
  rw [Finset.card_range] at hcard
  exact hleast.mono (by omega)

/-! ### The two updates -/

section Update

variable [DecidableEq α] {c a : α}

/-- Pointing an element at its root changes no root, and no way becomes longer. -/
theorem Climbs.compress (hc : RootOf parent c r) (hne : parent c ≠ c)
    (h : Climbs parent k x s) : Climbs (Function.update parent c r) k x s := by
  have hroot : ∀ {t}, parent t = t → Function.update parent c r t = t := by
    intro t ht
    have htc : t ≠ c := fun heq => hne (heq ▸ ht)
    rw [Function.update_of_ne htc, ht]
  induction k generalizing x with
  | zero => exact ⟨h.1, hroot h.2⟩
  | succ k ih =>
    apply climbs_succ
    by_cases hxc : x = c
    · have hsame : r = s := hc.unique ⟨k + 1, hxc ▸ h⟩
      rw [hxc, Function.update_self, ← hsame]
      exact climbs_root (hroot hc.fixed) k
    · rw [Function.update_of_ne hxc]
      exact ih h.step

/-- Pointing a root at another moves its class there. -/
theorem Climbs.link (ha : parent a = a) (hc : parent c = c) (hne : a ≠ c)
    (h : Climbs parent k x s) :
    Climbs (Function.update parent c a) (k + 1) x (if s = c then a else s) := by
  have hroot : ∀ {t}, t ≠ c → parent t = t → Function.update parent c a t = t := by
    intro t htc ht
    rw [Function.update_of_ne htc, ht]
  have hmoved : ∀ k, Climbs (Function.update parent c a) (k + 1) c a := by
    intro k
    apply climbs_succ
    rw [Function.update_self]
    exact climbs_root (hroot hne ha) k
  induction k generalizing x with
  | zero =>
    have hxs : x = s := h.1
    rw [hxs]
    by_cases hsc : s = c
    · rw [if_pos hsc, hsc]
      exact hmoved 0
    · rw [if_neg hsc]
      exact climbs_root (hroot hsc h.2) 1
  | succ k ih =>
    by_cases hxc : x = c
    · have hsc : s = c := by
        rw [← h.1, hxc]
        exact Function.iterate_fixed hc (k + 1)
      rw [if_pos hsc, hxc]
      exact hmoved (k + 1)
    · apply climbs_succ
      rw [Function.update_of_ne hxc]
      exact ih h.step

end Update

end Canon.Lib.Forest
