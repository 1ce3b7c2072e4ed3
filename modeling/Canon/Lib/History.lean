import Mathlib.Data.List.Basic

/-! # What happened since

    Statements about the history of a machine: that something happened and nothing has
    undone it, and what followed the last time something happened.  Whether an action
    counts may depend on the history before it.
-/

namespace History

variable {α : Type*} {P Q R : List α → α → Prop}

/-- Nothing of `after`, which follows `before`, is a `Q`. -/
def Quiet (Q : List α → α → Prop) (before after : List α) : Prop :=
  ∀ mid b rest, after = mid ++ b :: rest → ¬ Q (before ++ mid) b

@[simp] theorem quiet_nil (before : List α) : Quiet Q before [] := by
  intro mid b rest h
  simp at h

theorem quiet_snoc {before after : List α} {a : α} :
    Quiet Q before (after ++ [a]) ↔ Quiet Q before after ∧ ¬ Q (before ++ after) a := by
  constructor
  · intro h
    refine ⟨?_, h after a [] rfl⟩
    intro mid b rest hsplit
    exact h mid b (rest ++ [a]) (by simp [hsplit])
  · rintro ⟨hquiet, ha⟩ mid b rest hsplit
    rcases List.eq_nil_or_concat' rest with rfl | ⟨rest, c, rfl⟩
    · obtain ⟨rfl, rfl⟩ := List.append_singleton_inj.mp hsplit
      exact ha
    · rw [← List.cons_append, ← List.append_assoc] at hsplit
      obtain ⟨rfl, rfl⟩ := List.append_singleton_inj.mp hsplit
      exact hquiet mid b rest rfl

/-- `after` is what followed the last `R`. -/
def AfterLast (R : List α → α → Prop) (acts after : List α) : Prop :=
  ∃ before a, acts = before ++ a :: after ∧ R before a ∧ Quiet R (before ++ [a]) after

theorem AfterLast.now {acts : List α} {a : α} (h : R acts a) : AfterLast R (acts ++ [a]) [] :=
  ⟨acts, a, rfl, h, quiet_nil _⟩

theorem AfterLast.later {acts after : List α} {a : α} (h : AfterLast R acts after)
    (ha : ¬ R acts a) : AfterLast R (acts ++ [a]) (after ++ [a]) := by
  obtain ⟨before, b, rfl, hb, hquiet⟩ := h
  refine ⟨before, b, by simp, hb, ?_⟩
  rw [quiet_snoc]
  refine ⟨hquiet, ?_⟩
  rw [List.append_assoc]
  exact ha

theorem AfterLast.unique {acts after after' : List α} (h : AfterLast R acts after)
    (h' : AfterLast R acts after') : after = after' := by
  obtain ⟨before, a, rfl, ha, hquiet⟩ := h
  obtain ⟨before', a', hsplit, ha', hquiet'⟩ := h'
  -- The later of the two would be one that follows the earlier.
  rcases List.append_eq_append_iff.mp hsplit with ⟨mid, hbefore, hmid⟩ | ⟨mid, hbefore, hmid⟩
  · cases mid with
    | nil => exact (List.cons.inj hmid).2
    | cons c mid =>
      obtain ⟨rfl, hafter⟩ := List.cons.inj hmid
      apply absurd ha'
      rw [hbefore]
      have hnot := hquiet mid a' after' hafter
      rwa [List.append_assoc] at hnot
  · cases mid with
    | nil => exact (List.cons.inj hmid).2.symm
    | cons c mid =>
      obtain ⟨rfl, hafter⟩ := List.cons.inj hmid
      apply absurd ha
      rw [hbefore]
      have hnot := hquiet' mid a after hafter
      rwa [List.append_assoc] at hnot

/-- Some `P` happened, and no `Q` since. -/
def Since (P Q : List α → α → Prop) (acts : List α) : Prop :=
  ∃ before a after, acts = before ++ a :: after ∧ P before a ∧ Quiet Q (before ++ [a]) after

@[simp] theorem since_nil : ¬ Since P Q [] := by
  rintro ⟨before, a, after, h, -⟩
  simp at h

theorem since_snoc {acts : List α} {a : α} :
    Since P Q (acts ++ [a]) ↔ P acts a ∨ (¬ Q acts a ∧ Since P Q acts) := by
  constructor
  · rintro ⟨before, b, after, hsplit, hb, hquiet⟩
    rcases List.eq_nil_or_concat' after with rfl | ⟨after, c, rfl⟩
    · obtain ⟨rfl, rfl⟩ := List.append_singleton_inj.mp hsplit
      exact .inl hb
    · rw [← List.cons_append, ← List.append_assoc] at hsplit
      obtain ⟨rfl, rfl⟩ := List.append_singleton_inj.mp hsplit
      obtain ⟨hquiet, ha⟩ := quiet_snoc.mp hquiet
      rw [List.append_assoc] at ha
      exact .inr ⟨ha, before, b, after, rfl, hb, hquiet⟩
  · rintro (ha | ⟨ha, before, b, after, rfl, hb, hquiet⟩)
    · exact ⟨acts, a, [], rfl, ha, quiet_nil _⟩
    · refine ⟨before, b, after ++ [a], by simp, hb, ?_⟩
      rw [quiet_snoc]
      refine ⟨hquiet, ?_⟩
      rw [List.append_assoc]
      exact ha

end History
