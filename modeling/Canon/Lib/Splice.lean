import Mathlib.Data.List.Basic

/-! # Replacing parts of a list

    An edit replaces the cells from one place up to another.  `splice` says cell by cell
    what a list of edits makes of a text: a cell that no edit covers stays, a covered one
    goes, and where an edit begins its own text stands.

    * `Apart`, `Fits`: edits that do not overlap and lie within the text,
    * `splice_perm`: the order of such edits does not matter,
    * `splice_cons_last`: the last edit can be applied to the end of the text first.
-/

namespace Splice

variable {α : Type}

structure Edit (α : Type) where
  lo : Nat
  hi : Nat
  text : List α

def Apart (a b : Edit α) : Prop := a.hi ≤ b.lo ∨ b.hi ≤ a.lo

/-- Edits of a text of length `n`. -/
structure Fits (edits : List (Edit α)) (n : Nat) : Prop where
  within : ∀ e ∈ edits, e.hi ≤ n
  apart : edits.Pairwise Apart

variable (edits : List (Edit α))

/-- The texts of the edits that begin at a place. -/
def starting (i : Nat) : List α :=
  (edits.filter fun e => decide (e.lo = i)).flatMap Edit.text

def covered (i : Nat) : Bool :=
  edits.any fun e => decide (e.lo ≤ i ∧ i < e.hi)

/-- What the cell at a place becomes. -/
def piece (src : List α) (i : Nat) : List α :=
  starting edits i ++ if covered edits i then [] else src[i]?.toList

def splice (src : List α) : List α :=
  (List.range src.length).flatMap (piece edits src)

/-! ### Places without edits -/

variable {edits : List (Edit α)} {src : List α} {e : Edit α} {n : Nat}

theorem flatMap_getElem? (src : List α) (a : Nat) :
    (List.range' a (src.length - a)).flatMap (fun i => src[i]?.toList) = src.drop a := by
  induction hn : src.length - a generalizing a with
  | zero =>
    rw [List.drop_eq_nil_of_le (by omega)]
    rfl
  | succ n ih =>
    have ha : a < src.length := by omega
    rw [List.range'_succ, List.flatMap_cons, ih (a + 1) (by omega),
      List.getElem?_eq_getElem ha, List.drop_eq_getElem_cons ha]
    rfl

@[simp] theorem splice_nil (src : List α) : splice [] src = src := by
  have h := flatMap_getElem? src 0
  rw [Nat.sub_zero, List.drop_zero, ← List.range_eq_range'] at h
  exact h

/-! ### The last edit -/

theorem piece_eq_of_lt {i : Nat} (hi : i < e.lo) :
    piece (e :: edits) src i = piece edits (src.take e.lo) i := by
  have hstart : ¬ e.lo = i := by omega
  have hcover : ¬ (e.lo ≤ i ∧ i < e.hi) := by omega
  rw [piece, piece, starting, covered, List.filter_cons_of_neg (by simpa using hstart),
    List.any_cons, decide_eq_false hcover, Bool.false_or, List.getElem?_take, if_pos hi]
  rfl

/-- Behind the earlier edits only the last one counts. -/
theorem piece_eq_of_le (hbefore : ∀ d ∈ edits, d.lo < d.hi ∧ d.hi ≤ e.lo) {i : Nat}
    (hi : e.lo ≤ i) :
    piece (e :: edits) src i =
      (if e.lo = i then e.text else []) ++ if i < e.hi then [] else src[i]?.toList := by
  have hstart : (edits.filter fun d => decide (d.lo = i)) = [] := by
    apply List.filter_eq_nil_iff.mpr
    intro d hd
    have := hbefore d hd
    rw [decide_eq_true_eq]
    omega
  have hcover : (edits.any fun d => decide (d.lo ≤ i ∧ i < d.hi)) = false := by
    rw [List.any_eq_false]
    intro d hd
    have := hbefore d hd
    rw [decide_eq_true_eq]
    omega
  rw [piece, starting, covered, List.any_cons, hcover, Bool.or_false]
  congr 1
  · by_cases h : e.lo = i
    · rw [List.filter_cons_of_pos (by simpa using h), hstart, if_pos h]
      simp
    · rw [List.filter_cons_of_neg (by simpa using h), hstart, if_neg h]
      rfl
  · by_cases h : i < e.hi
    · rw [if_pos h, if_pos (decide_eq_true ⟨hi, h⟩)]
    · rw [if_neg h, if_neg (by simp [h])]

theorem splice_cons_last (hbefore : ∀ d ∈ edits, d.lo < d.hi ∧ d.hi ≤ e.lo)
    (hlt : e.lo < e.hi) (hwithin : e.hi ≤ src.length) :
    splice (e :: edits) src = splice edits (src.take e.lo) ++ (e.text ++ src.drop e.hi) := by
  -- The places below the edit, its first place, the others it covers, and those behind it.
  have hplaces : List.range src.length = List.range e.lo ++ (e.lo ::
      (List.range' (e.lo + 1) (e.hi - e.lo - 1) ++ List.range' e.hi (src.length - e.hi))) := by
    have hsplit : src.length = e.lo + (1 + ((e.hi - e.lo - 1) + (src.length - e.hi))) := by omega
    conv_lhs => rw [hsplit]
    rw [List.range_eq_range', List.range_eq_range', ← List.range'_append_1, ← List.range'_append_1,
      ← List.range'_append_1]
    have hnext : e.lo + 1 + (e.hi - e.lo - 1) = e.hi := by omega
    simp [hnext]
  have hlength : (src.take e.lo).length = e.lo := by
    rw [List.length_take]
    omega
  rw [splice, hplaces, List.flatMap_append, List.flatMap_cons, List.flatMap_append, splice, hlength]
  congr 1
  · apply List.flatMap_congr
    intro i hi
    exact piece_eq_of_lt (List.mem_range.mp hi)
  · rw [piece_eq_of_le hbefore (Nat.le_refl _), if_pos rfl, if_pos hlt, List.append_nil]
    congr 1
    have hcovered : (List.range' (e.lo + 1) (e.hi - e.lo - 1)).flatMap
        (piece (e :: edits) src) = [] := by
      apply List.flatMap_eq_nil_iff.mpr
      intro i hi
      obtain ⟨hlo, hhi⟩ := List.mem_range'_1.mp hi
      rw [piece_eq_of_le hbefore (by omega), if_neg (by omega), if_pos (by omega)]
      rfl
    rw [hcovered, List.nil_append, ← flatMap_getElem? src e.hi]
    apply List.flatMap_congr
    intro i hi
    obtain ⟨hlo, -⟩ := List.mem_range'_1.mp hi
    rw [piece_eq_of_le hbefore (by omega), if_neg (by omega), if_neg (by omega)]
    rfl

/-! ### The order of the edits -/

theorem Fits.perm {edits' : List (Edit α)} (h : Fits edits n) (hperm : edits'.Perm edits) :
    Fits edits' n where
  within := fun e he => h.within e (hperm.mem_iff.mp he)
  apart := hperm.symm.pairwise h.apart fun hab => Or.symm hab

/-- Of edits that do not overlap at most one begins at a place. -/
theorem length_starting_le (hlt : ∀ e ∈ edits, e.lo < e.hi) (hapart : edits.Pairwise Apart)
    (i : Nat) : (edits.filter fun e => decide (e.lo = i)).length ≤ 1 := by
  have hpair := hapart.sublist (@List.filter_sublist _ (fun e => decide (e.lo = i)) edits)
  have hmem : ∀ e ∈ edits.filter (fun e => decide (e.lo = i)), e.lo = i ∧ e.lo < e.hi := by
    intro e he
    obtain ⟨hedit, hlo⟩ := List.mem_filter.mp he
    exact ⟨of_decide_eq_true hlo, hlt e hedit⟩
  generalize edits.filter (fun e => decide (e.lo = i)) = row at hpair hmem ⊢
  match row with
  | [] => exact Nat.zero_le _
  | [_] => exact Nat.le_refl _
  | a :: b :: rest =>
    have ha := hmem a List.mem_cons_self
    have hb := hmem b (List.mem_cons_of_mem a List.mem_cons_self)
    rcases List.rel_of_pairwise_cons hpair List.mem_cons_self with h | h
    · omega
    · omega

theorem splice_perm {edits' : List (Edit α)} (hlt : ∀ e ∈ edits, e.lo < e.hi)
    (hapart : edits.Pairwise Apart) (hperm : edits'.Perm edits) (src : List α) :
    splice edits' src = splice edits src := by
  apply List.flatMap_congr
  intro i _
  have hstart : (edits'.filter fun e => decide (e.lo = i)) =
      edits.filter fun e => decide (e.lo = i) := by
    have hfilter := hperm.filter fun e => decide (e.lo = i)
    have hle := length_starting_le hlt hapart i
    generalize edits.filter (fun e => decide (e.lo = i)) = row at hfilter hle ⊢
    match row with
    | [] => exact hfilter.eq_nil
    | [e] => exact List.perm_singleton.mp hfilter
    | _ :: _ :: _ => simp at hle
  have hcover : covered edits' i = covered edits i := by
    rw [Bool.eq_iff_iff, covered, covered, List.any_eq_true, List.any_eq_true]
    constructor
    · intro ⟨e, he, h⟩
      exact ⟨e, hperm.mem_iff.mp he, h⟩
    · intro ⟨e, he, h⟩
      exact ⟨e, hperm.mem_iff.mpr he, h⟩
  rw [piece, piece, starting, starting, hstart, hcover]

end Splice
