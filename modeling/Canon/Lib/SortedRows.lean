import Canon.Lib.CountingSort

/-! # Rows of a sorted list

    A list that is sorted by a key has its rows next to each other: the items below a key
    come first, the row of the key is where they end, and a walk from there that stops at
    the first other key takes exactly this row.  A stable sort leaves every row as it was.
-/

namespace CountingSort

variable {α : Type} {key : α → Nat} {items : List α}

/-- Items of one row keep their order when the list is sorted. -/
theorem filter_mergeSort (key : α → Nat) (items : List α) (k : Nat) :
    (items.mergeSort fun a b => decide (key a ≤ key b)).filter (fun a => decide (key a = k)) =
      items.filter fun a => decide (key a = k) := by
  have hperm := items.mergeSort_perm fun a b => decide (key a ≤ key b)
  have hrow : (items.filter fun a => decide (key a = k)).Pairwise
      fun a b => decide (key a ≤ key b) = true := by
    rw [List.pairwise_iff_forall_sublist]
    intro a b hab
    have ha := List.of_mem_filter (hab.subset List.mem_cons_self)
    have hb := List.of_mem_filter (hab.subset (List.mem_cons_of_mem a List.mem_cons_self))
    rw [decide_eq_true_eq] at ha hb ⊢
    omega
  have hsub := @List.sublist_mergeSort α (fun a b => decide (key a ≤ key b)) items
    (fun a b c => by
      simp only [decide_eq_true_eq]
      omega)
    (fun a b => by
      simp only [Bool.or_eq_true, decide_eq_true_eq]
      omega) _ hrow List.filter_sublist
  have hfilter := hsub.filter fun a => decide (key a = k)
  rw [List.filter_filter] at hfilter
  simp only [Bool.and_self] at hfilter
  exact (hfilter.eq_of_length (hperm.filter _).length_eq.symm).symm

section Sorted

variable (hsorted : items.Pairwise fun a b => key a ≤ key b) (k : Nat)
include hsorted

/-- The items below a key, and behind them the others. -/
theorem filter_lt_append_filter_le :
    (items.filter fun a => decide (key a < k)) ++ (items.filter fun a => decide (k ≤ key a)) =
      items := by
  induction items with
  | nil => rfl
  | cons a items ih =>
    obtain ⟨hle, htail⟩ := List.pairwise_cons.mp hsorted
    have hrest := ih htail
    by_cases ha : key a < k
    · have hge : ¬ k ≤ key a := by omega
      simp only [List.filter_cons, ha, hge, decide_true, decide_false, if_true]
      simpa using hrest
    · have hge : k ≤ key a := by omega
      -- Nothing below the key comes behind an item that is not.
      have hnone : (items.filter fun b => decide (key b < k)) = [] := by
        apply List.filter_eq_nil_iff.mpr
        intro b hb
        have hab := hle b hb
        simp only [decide_eq_true_eq]
        omega
      rw [hnone, List.nil_append] at hrest
      simp only [List.filter_cons, ha, hge, decide_true, decide_false, if_true]
      simpa [hnone] using hrest

theorem take_below : items.take (below key items k) = items.filter fun a => decide (key a < k) := by
  have hlength : (items.filter fun a => decide (key a < k)).length = below key items k := by
    rw [below, List.countP_eq_length_filter]
  conv_lhs => rw [← filter_lt_append_filter_le hsorted k]
  exact List.take_left' (by rw [filter_lt_append_filter_le hsorted k, hlength])

theorem drop_below : items.drop (below key items k) = items.filter fun a => decide (k ≤ key a) := by
  have hsplit := List.take_append_drop (below key items k) items
  rw [take_below hsorted k] at hsplit
  exact List.append_cancel_left (hsplit.trans (filter_lt_append_filter_le hsorted k).symm)

/-- A row begins where the items below its key end. -/
theorem drop_below_eq_append :
    items.drop (below key items k) = (items.filter fun a => decide (key a = k)) ++
      items.filter fun a => decide (k + 1 ≤ key a) := by
  have hrest : (items.filter fun a => decide (k ≤ key a)).Pairwise fun a b => key a ≤ key b :=
    hsorted.sublist List.filter_sublist
  have hsplit := filter_lt_append_filter_le hrest (k + 1)
  have hrow : (items.filter fun a => decide (k ≤ key a)).filter
      (fun a => decide (key a < k + 1)) = items.filter fun a => decide (key a = k) := by
    rw [List.filter_filter]
    apply List.filter_congr
    intro a _
    by_cases h : key a = k
    · simp [h]
    · simp only [h, decide_false, Bool.and_eq_false_iff, decide_eq_false_iff_not]
      omega
  have hlater : (items.filter fun a => decide (k ≤ key a)).filter
      (fun a => decide (k + 1 ≤ key a)) = items.filter fun a => decide (k + 1 ≤ key a) := by
    rw [List.filter_filter]
    apply List.filter_congr
    intro a _
    by_cases h : k + 1 ≤ key a
    · simp only [h, decide_true, Bool.true_and, decide_eq_true_eq]
      omega
    · simp [h]
  rw [drop_below hsorted k, ← hsplit, hrow, hlater]

/-- A walk from there that stops at another key takes the row. -/
theorem takeWhile_drop_below :
    (items.drop (below key items k)).takeWhile (fun a => decide (key a = k)) =
      items.filter fun a => decide (key a = k) := by
  have hrow : ∀ a ∈ items.filter (fun a => decide (key a = k)), decide (key a = k) = true := by
    intro a ha
    exact (List.mem_filter.mp ha).2
  have hstop : (items.filter fun a => decide (k + 1 ≤ key a)).takeWhile
      (fun a => decide (key a = k)) = [] := by
    cases hlater : items.filter fun a => decide (k + 1 ≤ key a) with
    | nil => rfl
    | cons a later =>
      have ha : a ∈ items.filter fun a => decide (k + 1 ≤ key a) := by
        rw [hlater]
        exact List.mem_cons_self
      have hkey := (List.mem_filter.mp ha).2
      rw [decide_eq_true_eq] at hkey
      rw [List.takeWhile_cons_of_neg]
      rw [decide_eq_true_eq]
      omega
  rw [drop_below_eq_append hsorted k, List.takeWhile_append_of_pos hrow, hstop, List.append_nil]

theorem slice_sorted :
    slice items (below key items k) (below key items (k + 1)) =
      items.filter fun a => decide (key a = k) := by
  have hend := below_succ key items k
  have hlength := total_eq_length key items k
  rw [slice, List.drop_take, drop_below_eq_append hsorted k, List.take_left']
  omega

end Sorted

end CountingSort
