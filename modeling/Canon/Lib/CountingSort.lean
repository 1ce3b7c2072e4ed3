import Mathlib.Data.List.GetD
import Mathlib.Data.List.Induction
import Mathlib.Data.List.Sort
import Mathlib.Algebra.Order.Group.Nat

/-! # Distribution by counting

    Items with a key below `n` are put into one array, row by row: the keys are counted,
    the counts are added up to the places where the rows start, and then every item goes
    to the cursor of its row.  Items with another key are left out.  Counters are
    machine numbers; `wrap` says what a sum becomes.

    * `countRows`, `prefixSums`, `place`: the three passes,
    * `Placed`: what holds after some of the items are placed, with `Placed.place` for
      one more,
    * `row_scatter`: in the end a row holds the values of its items, in their order,
    * `sortRows`: sorting every row on its own.
-/

namespace CountingSort

variable {α β : Type}

/-! ### The passes -/

section Passes

variable (n : Nat) (key : α → Nat) (wrap : Nat → Nat)

/-- One counter behind each key, for the start of the next row. -/
def countRows (items : List α) : List Nat :=
  items.foldl (fun counts a =>
      if key a < n then counts.modify (key a + 1) fun c => wrap (c + 1) else counts)
    (List.replicate (n + 1) 0)

def prefixSums (counts : List Nat) : List Nat :=
  (List.range (counts.length - 1)).foldl (fun sums i =>
      sums.set (i + 1) (wrap (sums.getD (i + 1) 0 + sums.getD i 0)))
    counts

/-- The array that is filled, and where the next item of each row goes. -/
structure Scatter (β : Type) where
  cells : List β
  cursor : List Nat

def place (value : α → β) (s : Scatter β) (a : α) : Scatter β :=
  if key a < n then
    let pos := s.cursor.getD (key a) 0
    if pos < s.cells.length then
      ⟨s.cells.set pos (value a), s.cursor.modify (key a) fun c => wrap (c + 1)⟩
    else s
  else s

end Passes

/-- The part of a list between two places. -/
def slice (cells : List β) (a b : Nat) : List β := (cells.take b).drop a

/-! ### Counting -/

section Counts

variable (key : α → Nat)
variable (items : List α) (k : Nat)

/-- How many items have the key. -/
def total : Nat := items.countP fun a => decide (key a = k)

/-- How many items have a smaller one. -/
def below : Nat := items.countP fun a => decide (key a < k)

@[simp] theorem below_zero : below key items 0 = 0 := by simp [below]

theorem below_succ :
    below key items (k + 1) = below key items k + total key items k := by
  induction items with
  | nil => rfl
  | cons a items ih =>
    simp only [below, total, List.countP_cons] at ih ⊢
    rw [ih]
    by_cases hlt : key a < k
    · have hne : key a ≠ k := by omega
      have hsucc : key a < k + 1 := by omega
      simp only [hlt, hne, hsucc, decide_true, decide_false, if_true]
      simp
      omega
    · by_cases heq : key a = k
      · have hsucc : key a < k + 1 := by omega
        simp only [heq, decide_true, if_true]
        simp
        omega
      · have hsucc : ¬ key a < k + 1 := by omega
        simp [hlt, heq, hsucc]

theorem below_le_length : below key items k ≤ items.length :=
  List.countP_le_length

theorem below_mono {k l : Nat} (h : k ≤ l) :
    below key items k ≤ below key items l := by
  apply List.countP_mono_left
  intro a _ ha
  rw [decide_eq_true_eq] at ha ⊢
  omega

theorem total_concat (a : α) (k : Nat) :
    total key (items ++ [a]) k = total key items k + if key a = k then 1 else 0 := by
  simp [total, List.countP_append, List.countP_singleton]

theorem total_eq_length :
    total key items k = (items.filter fun a => decide (key a = k)).length := by
  rw [total, List.countP_eq_length_filter]

theorem total_le_length : total key items k ≤ items.length :=
  List.countP_le_length

end Counts

section Spec

variable {n : Nat} {key : α → Nat} {wrap : Nat → Nat}

theorem length_countRows (n : Nat) (key : α → Nat) (wrap : Nat → Nat) (items : List α) :
    (countRows n key wrap items).length = n + 1 := by
  induction items using List.reverseRecOn with
  | nil => simp [countRows]
  | append_singleton items a ih =>
    rw [countRows, List.foldl_append, ← countRows]
    show (if key a < n then _ else _ : List Nat).length = n + 1
    split
    · rw [List.length_modify, ih]
    · exact ih

theorem getD_modify_add {counts : List Nat} {i j : Nat} (f : Nat → Nat) (hj : j < counts.length) :
    (counts.modify i f).getD j 0 = if i = j then f (counts.getD j 0) else counts.getD j 0 := by
  rw [List.getD_eq_getElem?_getD, List.getElem?_modify, List.getD_eq_getElem?_getD,
    List.getElem?_eq_getElem hj]
  by_cases h : i = j <;> simp [h]

/-- A counter does not wrap as long as it stays within the number of items. -/
theorem getD_countRows {items : List α} {bound : Nat} (hwrap : ∀ m ≤ bound, wrap m = m)
    (hlen : items.length ≤ bound) {k : Nat} (hk : k < n) :
    (countRows n key wrap items).getD (k + 1) 0 = total key items k := by
  induction items using List.reverseRecOn with
  | nil => simp [countRows, total, hk]
  | append_singleton items a ih =>
    rw [List.length_append, List.length_singleton] at hlen
    have hlength := length_countRows n key wrap items
    have hkey := ih (by omega)
    rw [countRows, List.foldl_append, ← countRows, total_concat]
    show (if key a < n then _ else _ : List Nat).getD (k + 1) 0 = _
    by_cases ha : key a < n
    · rw [if_pos ha, getD_modify_add _ (by omega), hkey]
      by_cases heq : key a = k
      · have hle := total_le_length key items k
        rw [if_pos (by omega), if_pos heq, hwrap _ (by omega)]
      · rw [if_neg (by omega), if_neg heq, Nat.add_zero]
    · rw [if_neg ha, if_neg (by omega), Nat.add_zero]
      exact hkey

/-- The first row starts at zero. -/
theorem getD_countRows_zero (items : List α) : (countRows n key wrap items).getD 0 0 = 0 := by
  induction items using List.reverseRecOn with
  | nil => simp [countRows]
  | append_singleton items a ih =>
    have hlength := length_countRows n key wrap items
    rw [countRows, List.foldl_append, ← countRows]
    show (if key a < n then _ else _ : List Nat).getD 0 0 = 0
    split
    · rw [getD_modify_add _ (by omega), if_neg (by omega), ih]
    · exact ih

theorem length_prefixSums (counts : List Nat) :
    (prefixSums wrap counts).length = counts.length := by
  have hfold : ∀ (is : List Nat) (sums : List Nat),
      (is.foldl (fun sums i =>
        sums.set (i + 1) (wrap (sums.getD (i + 1) 0 + sums.getD i 0))) sums).length =
        sums.length := by
    intro is
    induction is with
    | nil => intro sums; rfl
    | cons i is ih =>
      intro sums
      rw [List.foldl_cons, ih, List.length_set]
  exact hfold _ counts

/-- The sums are the values of any function that starts and grows like the counts. -/
theorem getD_prefixSums {counts : List Nat} {f : Nat → Nat} (hzero : counts.getD 0 0 = f 0)
    (hsucc : ∀ j, j + 1 < counts.length → f (j + 1) = f j + counts.getD (j + 1) 0)
    (hwrap : ∀ j < counts.length, wrap (f j) = f j) {j : Nat} (hj : j < counts.length) :
    (prefixSums wrap counts).getD j 0 = f j := by
  -- After `i` rounds the first `i + 1` entries are sums and the others still counts.
  have hrounds : ∀ i, i + 1 ≤ counts.length →
      ((List.range i).foldl (fun sums i =>
        sums.set (i + 1) (wrap (sums.getD (i + 1) 0 + sums.getD i 0))) counts).length =
          counts.length ∧
      ∀ j < counts.length, ((List.range i).foldl (fun sums i =>
        sums.set (i + 1) (wrap (sums.getD (i + 1) 0 + sums.getD i 0))) counts).getD j 0 =
          if j ≤ i then f j else counts.getD j 0 := by
    intro i
    induction i with
    | zero =>
      intro _
      refine ⟨rfl, ?_⟩
      intro j _
      by_cases h : j ≤ 0
      · rw [if_pos h, Nat.le_zero.mp h]
        exact hzero
      · rw [if_neg h]
        rfl
    | succ i ih =>
      intro hi
      obtain ⟨hlen, hget⟩ := ih (by omega)
      rw [List.range_succ, List.foldl_append]
      refine ⟨by rw [List.foldl_cons, List.foldl_nil, List.length_set, hlen], ?_⟩
      intro j hj
      have hcount := hget (i + 1) (by omega)
      have hsum := hget i (by omega)
      rw [if_neg (by omega)] at hcount
      rw [if_pos (Nat.le_refl i)] at hsum
      rw [List.foldl_cons, List.foldl_nil, List.getD_eq_getElem?_getD, List.getElem?_set,
        hcount, hsum]
      by_cases h : i + 1 = j
      · rw [if_pos h, if_pos (by omega), if_pos (by omega), ← h, Option.getD_some,
          Nat.add_comm, ← hsucc i (by omega), hwrap (i + 1) (by omega)]
      · rw [if_neg h, ← List.getD_eq_getElem?_getD, hget j hj]
        by_cases hle : j ≤ i
        · rw [if_pos hle, if_pos (by omega)]
        · rw [if_neg hle, if_neg (by omega)]
  have hlast := (hrounds (counts.length - 1) (by omega)).2 j hj
  rw [if_pos (by omega)] at hlast
  exact hlast

/-- Where the rows start. -/
theorem getD_rowPtr {items : List α} {bound : Nat} (hwrap : ∀ m ≤ bound, wrap m = m)
    (hlen : items.length ≤ bound) {k : Nat} (hk : k ≤ n) :
    (prefixSums wrap (countRows n key wrap items)).getD k 0 = below key items k := by
  have hlength := length_countRows n key wrap items
  apply getD_prefixSums
  · rw [below_zero, getD_countRows_zero]
  · intro j hj
    rw [below_succ key, getD_countRows hwrap hlen (by omega : j < n)]
  · intro j _
    exact hwrap _ (Nat.le_trans (below_le_length key items j) hlen)
  · omega

/-! ### Placing -/

/-- What holds after the items `done` are placed. -/
structure Placed (n : Nat) (key : α → Nat) (value : α → β) (items done : List α)
    (s : Scatter β) : Prop where
  length : s.cells.length = items.length
  cursors : s.cursor.length = n + 1
  cursor : ∀ k < n, s.cursor.getD k 0 = below key items k + total key done k
  cells : ∀ k < n, ∀ j < total key done k, s.cells[below key items k + j]? =
    ((done.filter fun a => decide (key a = k)).map value)[j]?

variable {value : α → β} {items done : List α} {s : Scatter β}

/-- Each item goes to a free cell of its own row. -/
theorem Placed.place {bound : Nat} (h : Placed n key value items done s)
    (hwrap : ∀ m ≤ bound, wrap m = m) (hlen : items.length ≤ bound) {a : α} {rest : List α}
    (hitems : items = done ++ a :: rest) :
    Placed n key value items (done ++ [a]) (place n key wrap value s a) := by
  rw [CountingSort.place]
  by_cases ha : key a < n
  · have hpos := h.cursor (key a) ha
    have hroom : total key done (key a) < total key items (key a) := by
      rw [hitems, total, total, List.countP_append, List.countP_cons_of_pos (by simp)]
      omega
    have hend := below_succ key items (key a)
    have hfits := below_le_length key items (key a + 1)
    have hlt : s.cursor.getD (key a) 0 < s.cells.length := by
      rw [hpos, h.length]
      omega
    rw [if_pos ha, if_pos hlt]
    refine ⟨by rw [List.length_set, h.length], by rw [List.length_modify, h.cursors], ?_, ?_⟩
    · intro k hk
      rw [getD_modify_add _ (by rw [h.cursors]; omega), total_concat, h.cursor k hk]
      by_cases heq : key a = k
      · subst heq
        rw [if_pos rfl, if_pos rfl, hwrap _ (by omega)]
        omega
      · rw [if_neg heq, if_neg heq, Nat.add_zero]
    · intro k hk j hj
      rw [total_concat] at hj
      rw [List.getElem?_set, List.filter_append, List.map_append]
      have hlength : ((done.filter fun a => decide (key a = k)).map value).length =
          total key done k := by
        rw [List.length_map, total_eq_length]
      by_cases heq : key a = k
      · rw [if_pos heq] at hj
        subst heq
        by_cases hlast : j = total key done (key a)
        · rw [if_pos (by omega), if_pos hlt, List.getElem?_append_right (by omega), hlength, hlast,
            Nat.sub_self]
          simp
        · rw [if_neg (by omega), List.getElem?_append_left (by omega)]
          exact h.cells (key a) hk j (by omega)
      -- The rows do not overlap.
      · rw [if_neg heq, Nat.add_zero] at hj
        have hdone : total key done k ≤ total key items k := by
          rw [hitems, total, total, List.countP_append]
          omega
        have hendk := below_succ key items k
        have hapart : s.cursor.getD (key a) 0 ≠ below key items k + j := by
          rcases Nat.lt_or_gt_of_ne heq with hkey | hkey
          · have := below_mono key items (show key a + 1 ≤ k by omega)
            omega
          · have := below_mono key items (show k + 1 ≤ key a by omega)
            omega
        rw [if_neg hapart, List.getElem?_append_left (by omega)]
        exact h.cells k hk j hj
  · rw [if_neg ha]
    have hkeep : ∀ k < n, total key (done ++ [a]) k = total key done k := by
      intro k hk
      rw [total_concat, if_neg (by omega), Nat.add_zero]
    refine ⟨h.length, h.cursors, ?_, ?_⟩
    · intro k hk
      rw [hkeep k hk, h.cursor k hk]
    · intro k hk j hj
      rw [hkeep k hk] at hj
      have hfilter : (done ++ [a]).filter (fun a => decide (key a = k)) =
          done.filter fun a => decide (key a = k) := by
        rw [List.filter_append, List.filter_cons_of_neg (by
          rw [decide_eq_true_eq]
          omega), List.filter_nil, List.append_nil]
      rw [hfilter]
      exact h.cells k hk j hj

theorem Placed.foldl {bound : Nat} (h : Placed n key value items done s)
    (hwrap : ∀ m ≤ bound, wrap m = m) (hlen : items.length ≤ bound) {rest : List α}
    (hitems : items = done ++ rest) :
    Placed n key value items items (rest.foldl (CountingSort.place n key wrap value) s) := by
  induction rest generalizing done s with
  | nil =>
    rw [List.append_nil] at hitems
    rw [hitems] at h ⊢
    exact h
  | cons a rest ih =>
    have hstep := h.place hwrap hlen hitems
    exact ih hstep (by rw [hitems, List.append_assoc]; rfl)

/-- All three passes. -/
def scatter (n : Nat) (key : α → Nat) (wrap : Nat → Nat) (value : α → β) (fill : β)
    (items : List α) : Scatter β :=
  items.foldl (place n key wrap value)
    ⟨List.replicate items.length fill, prefixSums wrap (countRows n key wrap items)⟩

theorem placed_scatter {bound : Nat} (hwrap : ∀ m ≤ bound, wrap m = m)
    (hlen : items.length ≤ bound) (fill : β) :
    Placed n key value items items (scatter n key wrap value fill items) := by
  apply @Placed.foldl _ _ _ _ _ _ _ [] _ _ _ hwrap hlen _ rfl
  refine ⟨List.length_replicate, ?_, ?_, ?_⟩
  · rw [length_prefixSums, length_countRows]
  · intro k hk
    rw [getD_rowPtr hwrap hlen (by omega)]
    rfl
  · intro k _ j hj
    exact absurd hj (Nat.not_lt_zero _)

/-- A row holds the values of its items, in their order. -/
theorem row_scatter {bound : Nat} (hwrap : ∀ m ≤ bound, wrap m = m)
    (hlen : items.length ≤ bound) (fill : β) {k : Nat} (hk : k < n) :
    slice (scatter n key wrap value fill items).cells (below key items k)
        (below key items (k + 1)) =
      (items.filter fun a => decide (key a = k)).map value := by
  have hplaced := @placed_scatter _ _ n key _ value _ _ hwrap hlen fill
  have hend := below_succ key items k
  have hlength : ((items.filter fun a => decide (key a = k)).map value).length =
      total key items k := by
    rw [List.length_map, total_eq_length]
  apply List.ext_getElem?
  intro j
  rw [slice, List.getElem?_drop, List.getElem?_take]
  by_cases hj : j < total key items k
  · rw [if_pos (by omega)]
    exact hplaced.cells k hk j hj
  · rw [if_neg (by omega), List.getElem?_eq_none (by omega)]

end Spec

/-! ### Sorting the rows -/

section Sorting

variable (le : β → β → Bool)

/-- Sorting the part of a list between two places. -/
def sortSlice (cells : List β) (a b : Nat) : List β :=
  cells.take a ++ ((slice cells a b).mergeSort le ++ cells.drop b)

/-- One row after the other; an empty row is left alone. -/
def sortRows (rowPtr : List Nat) (n : Nat) (cells : List β) : List β :=
  (List.range n).foldl (fun cells row =>
      let start := rowPtr.getD row 0
      let stop := rowPtr.getD (row + 1) 0
      if stop > start then sortSlice le cells start stop else cells)
    cells

variable {le} {cells : List β} {a b : Nat}

theorem getElem?_slice (cells : List β) (a b i : Nat) :
    (slice cells a b)[i]? = if a + i < b then cells[a + i]? else none := by
  rw [slice, List.getElem?_drop, List.getElem?_take]

theorem length_slice (hb : b ≤ cells.length) : (slice cells a b).length = b - a := by
  rw [slice, List.length_drop, List.length_take, Nat.min_eq_left hb]

theorem getElem?_sortSlice (hab : a ≤ b) (hb : b ≤ cells.length) (i : Nat) :
    (sortSlice le cells a b)[i]? =
      if i < a then cells[i]?
      else if i < b then ((slice cells a b).mergeSort le)[i - a]? else cells[i]? := by
  have htake : (cells.take a).length = a := by
    rw [List.length_take]
    omega
  have hsorted : ((slice cells a b).mergeSort le).length = b - a := by
    rw [List.length_mergeSort, length_slice hb]
  rw [sortSlice]
  by_cases hia : i < a
  · rw [if_pos hia, List.getElem?_append_left (by omega), List.getElem?_take, if_pos hia]
  · rw [if_neg hia, List.getElem?_append_right (by omega), htake]
    by_cases hib : i < b
    · rw [if_pos hib, List.getElem?_append_left (by omega)]
    · rw [if_neg hib, List.getElem?_append_right (by omega), hsorted, List.getElem?_drop]
      congr 1
      omega

theorem length_sortSlice (hab : a ≤ b) (hb : b ≤ cells.length) :
    (sortSlice le cells a b).length = cells.length := by
  rw [sortSlice, List.length_append, List.length_append, List.length_mergeSort, length_slice hb,
    List.length_take, List.length_drop]
  omega

theorem slice_sortSlice (hab : a ≤ b) (hb : b ≤ cells.length) :
    slice (sortSlice le cells a b) a b = (slice cells a b).mergeSort le := by
  have hsorted : ((slice cells a b).mergeSort le).length = b - a := by
    rw [List.length_mergeSort, length_slice hb]
  apply List.ext_getElem?
  intro i
  rw [getElem?_slice, getElem?_sortSlice hab hb]
  by_cases hi : a + i < b
  · rw [if_pos hi, if_neg (by omega), if_pos hi, Nat.add_sub_cancel_left]
  · rw [if_neg hi, List.getElem?_eq_none (by omega)]

/-- The rest of the list stays as it is. -/
theorem slice_sortSlice_apart {c d : Nat} (hab : a ≤ b) (hb : b ≤ cells.length)
    (happart : d ≤ a ∨ b ≤ c) : slice (sortSlice le cells a b) c d = slice cells c d := by
  apply List.ext_getElem?
  intro i
  rw [getElem?_slice, getElem?_slice, getElem?_sortSlice hab hb]
  by_cases hi : c + i < d
  · rw [if_pos hi, if_pos hi]
    rcases happart with h | h
    · rw [if_pos (by omega)]
    · rw [if_neg (by omega), if_neg (by omega)]
  · rw [if_neg hi, if_neg hi]

/-- Sorting the rows sorts each of them. -/
theorem slice_sortRows {rowPtr : List Nat} {n : Nat} {cells : List β}
    (hmono : ∀ k l, k ≤ l → l ≤ n → rowPtr.getD k 0 ≤ rowPtr.getD l 0)
    (hend : rowPtr.getD n 0 ≤ cells.length) {k : Nat} (hk : k < n) :
    slice (sortRows le rowPtr n cells) (rowPtr.getD k 0) (rowPtr.getD (k + 1) 0) =
      (slice cells (rowPtr.getD k 0) (rowPtr.getD (k + 1) 0)).mergeSort le := by
  -- After `r` rows the first `r` are sorted and the others untouched.
  have hrounds : ∀ r, r ≤ n →
      ((List.range r).foldl (fun cells row =>
        if rowPtr.getD (row + 1) 0 > rowPtr.getD row 0 then
          sortSlice le cells (rowPtr.getD row 0) (rowPtr.getD (row + 1) 0)
        else cells) cells).length = cells.length ∧
      ∀ k < n, slice ((List.range r).foldl (fun cells row =>
        if rowPtr.getD (row + 1) 0 > rowPtr.getD row 0 then
          sortSlice le cells (rowPtr.getD row 0) (rowPtr.getD (row + 1) 0)
        else cells) cells) (rowPtr.getD k 0) (rowPtr.getD (k + 1) 0) =
          if k < r then (slice cells (rowPtr.getD k 0) (rowPtr.getD (k + 1) 0)).mergeSort le
          else slice cells (rowPtr.getD k 0) (rowPtr.getD (k + 1) 0) := by
    intro r
    induction r with
    | zero =>
      intro _
      refine ⟨rfl, ?_⟩
      intro k _
      rw [if_neg (Nat.not_lt_zero k)]
      rfl
    | succ r ih =>
      intro hr
      obtain ⟨hlen, hslices⟩ := ih (by omega)
      rw [List.range_succ, List.foldl_append, List.foldl_cons, List.foldl_nil]
      generalize (List.range r).foldl _ cells = before at hlen hslices ⊢
      have hrow := hmono r (r + 1) (by omega) (by omega)
      have hstop : rowPtr.getD (r + 1) 0 ≤ before.length := by
        rw [hlen]
        exact Nat.le_trans (hmono (r + 1) n hr (Nat.le_refl n)) hend
      by_cases hempty : rowPtr.getD (r + 1) 0 > rowPtr.getD r 0
      · rw [if_pos hempty]
        refine ⟨by rw [length_sortSlice hrow hstop, hlen], ?_⟩
        intro k hk
        by_cases hkr : k = r
        · subst hkr
          rw [slice_sortSlice hrow hstop, hslices k hk, if_neg (Nat.lt_irrefl k),
            if_pos (Nat.lt_succ_self k)]
        · have happart : rowPtr.getD (k + 1) 0 ≤ rowPtr.getD r 0 ∨
              rowPtr.getD (r + 1) 0 ≤ rowPtr.getD k 0 := by
            rcases Nat.lt_or_gt_of_ne hkr with h | h
            · exact .inl (hmono (k + 1) r h (by omega))
            · exact .inr (hmono (r + 1) k h (by omega))
          rw [slice_sortSlice_apart hrow hstop happart, hslices k hk]
          by_cases hlt : k < r
          · rw [if_pos hlt, if_pos (by omega)]
          · rw [if_neg hlt, if_neg (by omega)]
      · rw [if_neg hempty]
        refine ⟨hlen, ?_⟩
        intro k hk
        rw [hslices k hk]
        by_cases hkr : k = r
        -- An empty row is sorted.
        · subst hkr
          have hnil : slice cells (rowPtr.getD k 0) (rowPtr.getD (k + 1) 0) = [] := by
            apply List.eq_nil_of_length_eq_zero
            rw [length_slice (by rw [← hlen]; exact hstop)]
            omega
          rw [hnil, List.mergeSort_nil, ite_self, ite_self]
        · by_cases hlt : k < r
          · rw [if_pos hlt, if_pos (by omega)]
          · rw [if_neg hlt, if_neg (by omega)]
  have hall := (hrounds n (Nat.le_refl n)).2 k hk
  rw [if_pos hk] at hall
  exact hall

end Sorting

end CountingSort
