import Mathlib.Order.Bounds.Defs
import Mathlib.Order.Monotone.Basic

/-! # Operators applied in any order

    Operators on an ordered set that never go up are applied one after another, in any
    order.  A run that ends where none of them changes anything has found the greatest
    common fixed point below its start, so all runs that end so agree.
-/

namespace ChaoticIteration

open Relation

variable {σ ι : Type*} [PartialOrder σ] {op : ι → σ → σ} {s t u x : σ}

/-- One operator is applied. -/
def Step (op : ι → σ → σ) (s t : σ) : Prop := ∃ i, t = op i s

/-- The operators are monotone and take something away or nothing. -/
structure Narrows (op : ι → σ → σ) : Prop where
  mono : ∀ i, Monotone (op i)
  le : ∀ i s, op i s ≤ s

/-- No operator changes it. -/
def Fixed (op : ι → σ → σ) (s : σ) : Prop := ∀ i, op i s = s

/-- A run only goes down. -/
theorem le_of_run (h : Narrows op) (hrun : ReflTransGen (Step op) s t) : t ≤ s := by
  induction hrun with
  | refl => exact le_rfl
  | tail _ hstep ih =>
    obtain ⟨i, rfl⟩ := hstep
    exact (h.le i _).trans ih

/-- A run stays above every fixed point below its start. -/
theorem fixed_le_of_run (h : Narrows op) (hx : Fixed op x) (hxs : x ≤ s)
    (hrun : ReflTransGen (Step op) s t) : x ≤ t := by
  induction hrun with
  | refl => exact hxs
  | tail _ hstep ih =>
    obtain ⟨i, rfl⟩ := hstep
    rw [← hx i]
    exact h.mono i ih

theorem isGreatest_of_run (h : Narrows op) (hrun : ReflTransGen (Step op) s t)
    (ht : Fixed op t) : IsGreatest {x | Fixed op x ∧ x ≤ s} t := by
  refine ⟨⟨ht, le_of_run h hrun⟩, ?_⟩
  intro x hx
  exact fixed_le_of_run h hx.1 hx.2 hrun

/-- What a run that ends at a fixed point finds is below every state of any other run. -/
theorem fixed_le_of_runs (h : Narrows op) (hrun : ReflTransGen (Step op) s t)
    (ht : Fixed op t) (hother : ReflTransGen (Step op) s u) : t ≤ u :=
  fixed_le_of_run h ht (le_of_run h hrun) hother

theorem runs_agree (h : Narrows op) (hrun : ReflTransGen (Step op) s t) (ht : Fixed op t)
    (hother : ReflTransGen (Step op) s u) (hu : Fixed op u) : t = u :=
  le_antisymm (fixed_le_of_runs h hrun ht hother) (fixed_le_of_runs h hother hu hrun)

end ChaoticIteration
