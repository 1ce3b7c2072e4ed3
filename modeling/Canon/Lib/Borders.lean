import Mathlib.Data.List.Basic

/-! # Overlaps of a pattern

    A word is read from the left, and what matters about it is which beginnings of the pattern
    end it.  Below one such overlap the others are the borders of that beginning, so that they
    are known from the pattern alone.

    * `Overlap`, `overlap_concat`, `Overlap.iff_take`: how overlaps grow and shrink,
    * `IsFailure`: the longest border that is shorter,
    * `Candidate`, `Candidate.le_failure`: the overlaps that a next letter can extend,
    * `OccursAt`, `occursAt_iff_overlap`: occurrences of the whole pattern.
-/

namespace Canon.Lib.Borders

variable {α : Type*} {p w t : List α} {c : α} {j k q v : Nat}

/-- The first `k` letters of the pattern end the word. -/
def Overlap (p w : List α) (k : Nat) : Prop := k ≤ p.length ∧ p.take k <:+ w

theorem overlap_zero : Overlap p w 0 := ⟨Nat.zero_le _, by simp⟩

theorem length_take_of_le (hk : k ≤ p.length) : (p.take k).length = k := by
  rw [List.length_take]
  omega

theorem Overlap.le_length (h : Overlap p w k) : k ≤ w.length := by
  have hle := h.2.length_le
  rw [length_take_of_le h.1] at hle
  exact hle

/-- The overlaps below one are the borders of its part of the pattern. -/
theorem Overlap.iff_take (h : Overlap p w j) (hk : k ≤ j) :
    Overlap p w k ↔ Overlap p (p.take j) k := by
  have hle : k ≤ p.length := by
    have := h.1
    omega
  constructor
  · intro hw
    refine ⟨hle, List.suffix_of_suffix_length_le hw.2 h.2 ?_⟩
    rw [length_take_of_le hle, length_take_of_le h.1]
    exact hk
  · intro hj
    exact ⟨hle, hj.2.trans h.2⟩

theorem take_succ_of_get (hc : p[k]? = some c) : p.take (k + 1) = p.take k ++ [c] := by
  rw [List.take_add_one, hc]
  rfl

/-- A letter extends the overlaps that it continues, and no other. -/
theorem overlap_concat : Overlap p (w ++ [c]) (k + 1) ↔ Overlap p w k ∧ p[k]? = some c := by
  constructor
  · intro ⟨hle, hsuffix⟩
    have hget : p[k]? = some p[k] := List.getElem?_eq_getElem hle
    rw [take_succ_of_get hget] at hsuffix
    obtain ⟨u, hu⟩ := hsuffix
    rw [← List.append_assoc] at hu
    obtain ⟨hw, hlast⟩ := List.append_inj' hu rfl
    rw [hget, (List.cons.inj hlast).1]
    exact ⟨⟨Nat.le_of_lt hle, ⟨u, hw⟩⟩, rfl⟩
  · intro ⟨⟨_, u, hu⟩, hc⟩
    obtain ⟨hlt, -⟩ := List.getElem?_eq_some_iff.mp hc
    refine ⟨hlt, u, ?_⟩
    rw [take_succ_of_get hc, ← List.append_assoc, hu]

/-! ### The failure function -/

/-- The longest border of the first `q` letters that is shorter than they are. -/
def IsFailure (p : List α) (q v : Nat) : Prop :=
  v < q ∧ Overlap p (p.take q) v ∧ ∀ k < q, Overlap p (p.take q) k → k ≤ v

/-- An overlap, shorter than the bound, that the letter continues. -/
def Candidate (p w : List α) (bound : Nat) (c : α) (k : Nat) : Prop :=
  k < bound ∧ Overlap p w k ∧ p[k]? = some c

/-- Where the letter does not continue the longest overlap that is left, the next one to try is
    its failure. -/
theorem Candidate.le_failure {bound : Nat} (hj : Overlap p w j) (hv : IsFailure p j v)
    (hmax : ∀ k, Candidate p w bound c k → k ≤ j) (hne : p[j]? ≠ some c)
    (h : Candidate p w bound c k) : k ≤ v := by
  have hle := hmax k h
  have hlt : k < j := by
    rcases Nat.lt_or_eq_of_le hle with hlt | heq
    · exact hlt
    · rw [← heq] at hne
      exact absurd h.2.2 hne
  exact hv.2.2 k hlt ((hj.iff_take hle).mp h.2.1)

theorem Overlap.failure (hj : Overlap p w j) (hv : IsFailure p j v) : Overlap p w v :=
  (hj.iff_take (Nat.le_of_lt hv.1)).mpr hv.2.1

/-! ### Occurrences -/

/-- The pattern stands in the text from position `s` on. -/
def OccursAt (t p : List α) (s : Nat) : Prop := (t.drop s).take p.length = p

instance [DecidableEq α] (t p : List α) (s : Nat) : Decidable (OccursAt t p s) :=
  inferInstanceAs (Decidable (_ = _))

theorem occursAt_iff_prefix {s : Nat} : OccursAt t p s ↔ p <+: t.drop s := by
  rw [List.prefix_iff_eq_take, OccursAt]
  exact eq_comm

/-- An occurrence is an overlap of the whole pattern where it ends. -/
theorem occursAt_iff_overlap {s i : Nat} (hi : s + p.length = i) (hle : i ≤ t.length) :
    OccursAt t p s ↔ Overlap p (t.take i) p.length := by
  unfold OccursAt Overlap
  rw [List.take_length, List.suffix_iff_eq_drop, length_take_of_le hle, List.drop_take,
    show i - p.length = s by omega, show i - s = p.length by omega]
  exact ⟨fun h => ⟨Nat.le_refl _, h.symm⟩, fun h => h.2.symm⟩

end Canon.Lib.Borders
