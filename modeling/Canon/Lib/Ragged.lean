import Mathlib.Algebra.GroupWithZero.Nat
import Mathlib.Data.List.Basic

/-! # Rows in one array

    Rows of any lengths stand one after another in one array, and a row is found again by the
    number of entries before it.

    * `offset`, `offset_succ`, `offset_mono`: the entries before a row,
    * `getElem?_flatten`, `slice_flatten`: an entry of a row, and the whole row,
    * `offset_const`: rows of one length.
-/

namespace Canon.Lib.Ragged

variable {β : Type*} {rows : List (List β)} {row : List β} {k k' r n : Nat}

/-- The entries before the `k`-th row. -/
def offset (rows : List (List β)) (k : Nat) : Nat := ((rows.take k).map List.length).sum

theorem offset_zero : offset rows 0 = 0 := by
  rw [offset, List.take_zero]
  rfl

theorem offset_succ (h : rows[k]? = some row) :
    offset rows (k + 1) = offset rows k + row.length := by
  rw [offset, List.take_add_one, h, List.map_append, List.sum_append, offset]
  rfl

theorem offset_length : offset rows rows.length = rows.flatten.length := by
  rw [offset, List.take_length, List.length_flatten]

theorem offset_mono (hle : k ≤ k') : offset rows k ≤ offset rows k' := by
  have hsplit : rows.take k' = rows.take k ++ (rows.take k').drop k := by
    conv_lhs => rw [← List.take_append_drop k (rows.take k'), List.take_take,
      Nat.min_eq_left hle]
  rw [offset, offset, hsplit, List.map_append, List.sum_append]
  exact Nat.le_add_right _ _

theorem offset_le_length (rows : List (List β)) (k : Nat) :
    offset rows k ≤ rows.flatten.length := by
  by_cases hle : k ≤ rows.length
  · rw [← offset_length]
    exact offset_mono hle
  · apply Nat.le_of_eq
    rw [offset, List.take_of_length_le (by omega), List.length_flatten]

theorem length_flatten_take : (rows.take k).flatten.length = offset rows k :=
  List.length_flatten

theorem drop_flatten (h : rows[k]? = some row) :
    rows.flatten.drop (offset rows k) = row ++ (rows.drop (k + 1)).flatten := by
  obtain ⟨hlt, hget⟩ := List.getElem?_eq_some_iff.mp h
  have hsplit : rows.flatten = (rows.take k).flatten ++ (row ++ (rows.drop (k + 1)).flatten) := by
    rw [← List.flatten_cons, ← hget, ← List.drop_eq_getElem_cons hlt, ← List.flatten_append,
      List.take_append_drop]
  rw [hsplit, ← length_flatten_take, List.drop_left]

theorem getElem?_flatten (h : rows[k]? = some row) (hr : r < row.length) :
    rows.flatten[offset rows k + r]? = row[r]? := by
  rw [← List.getElem?_drop, drop_flatten h, List.getElem?_append_left hr]

theorem slice_flatten (h : rows[k]? = some row) :
    (rows.flatten.drop (offset rows k)).take row.length = row := by
  rw [drop_flatten h, List.take_left]

theorem offset_const (hrows : ∀ row ∈ rows, row.length = n) (hk : k ≤ rows.length) :
    offset rows k = k * n := by
  induction k with
  | zero => rw [offset_zero, Nat.zero_mul]
  | succ k ih =>
    have hget : rows[k]? = some rows[k] := List.getElem?_eq_getElem hk
    rw [offset_succ hget, ih (by omega), hrows _ (List.getElem_mem hk), Nat.succ_mul]

end Canon.Lib.Ragged
