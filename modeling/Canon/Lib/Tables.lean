import Mathlib.Data.List.Nodup

/-! # Maps that are walked over

    A hash map some function walks over is its rows, in the order in which the walk meets
    them; no key stands in two rows.  Nothing here says which order that is: statements
    about a walk are statements about membership.
-/

/-- A map from keys to values as its rows. -/
structure Table (κ ν : Type) where
  rows : List (κ × ν)
  nodup : (rows.map Prod.fst).Nodup

namespace Table

variable {κ ν : Type} [DecidableEq κ]

def empty : Table κ ν where
  rows := []
  nodup := List.nodup_nil

variable (t : Table κ ν)

def get (k : κ) : Option ν := (t.rows.find? fun e => e.1 = k).map Prod.snd

/-- Change the value under a key, when there is one. -/
def modify (k : κ) (f : ν → ν) : Table κ ν where
  rows := t.rows.map fun e => if e.1 = k then (e.1, f e.2) else e
  nodup := by
    have hkeys : (t.rows.map fun e => if e.1 = k then (e.1, f e.2) else e).map Prod.fst
        = t.rows.map Prod.fst := by
      rw [List.map_map]
      apply List.map_congr_left
      intro e _
      show (if e.1 = k then (e.1, f e.2) else e).1 = e.1
      split <;> rfl
    rw [hkeys]
    exact t.nodup

/-- Put `d` under a key that has no value, then change the value. -/
def entry (k : κ) (d : ν) (f : ν → ν) : Table κ ν :=
  if h : k ∈ t.rows.map Prod.fst then t.modify k f
  else
    { rows := t.rows ++ [(k, f d)]
      nodup := by
        rw [List.map_append, List.nodup_append]
        refine ⟨t.nodup, by simp, ?_⟩
        intro a ha b hb hab
        have hkey : b = k := List.mem_singleton.mp hb
        rw [hab, hkey] at ha
        exact h ha }

/-- Change every value. -/
def mapValues (f : ν → ν) : Table κ ν where
  rows := t.rows.map fun e => (e.1, f e.2)
  nodup := by
    rw [List.map_map]
    exact t.nodup

/-- A walk meets a row exactly when a look at its key finds its value. -/
theorem mem_rows_iff {t : Table κ ν} {k : κ} {v : ν} : (k, v) ∈ t.rows ↔ t.get k = some v := by
  rw [get, Option.map_eq_some_iff]
  constructor
  · intro hmem
    have hsome : (t.rows.find? fun e => e.1 = k).isSome := by
      rw [List.find?_isSome]
      exact ⟨(k, v), hmem, by simp⟩
    obtain ⟨e, he⟩ := Option.isSome_iff_exists.mp hsome
    have hkey : e.1 = k := by simpa using List.find?_some he
    have heq : e = (k, v) :=
      List.inj_on_of_nodup_map t.nodup (List.mem_of_find?_eq_some he) hmem hkey
    exact ⟨e, he, by rw [heq]⟩
  · intro hfound
    obtain ⟨e, he, hv⟩ := hfound
    have hkey : e.1 = k := by simpa using List.find?_some he
    rw [← hkey, ← hv]
    exact List.mem_of_find?_eq_some he

theorem get_eq_none_iff {t : Table κ ν} {k : κ} :
    t.get k = none ↔ k ∉ t.rows.map Prod.fst := by
  rw [get, Option.map_eq_none_iff, List.find?_eq_none, List.mem_map]
  constructor
  · intro h hmem
    obtain ⟨e, he, hkey⟩ := hmem
    exact h e he (by simpa using hkey)
  · intro h e he hkey
    exact h ⟨e, he, by simpa using hkey⟩

/-- Two looks agree when they find the same values. -/
theorem get_eq_of_mem_rows {t : Table κ ν} {k : κ} {o : Option ν}
    (h : ∀ v, (k, v) ∈ t.rows ↔ o = some v) : t.get k = o := by
  apply Option.ext
  intro v
  rw [← mem_rows_iff]
  exact h v

theorem get_modify (k j : κ) (f : ν → ν) :
    (t.modify k f).get j = if j = k then (t.get j).map f else t.get j := by
  apply get_eq_of_mem_rows
  intro v
  show (j, v) ∈ t.rows.map (fun e => if e.1 = k then (e.1, f e.2) else e) ↔ _
  rw [List.mem_map]
  by_cases hjk : j = k
  · rw [if_pos hjk, Option.map_eq_some_iff]
    constructor
    · intro h
      obtain ⟨e, he, heq⟩ := h
      by_cases hek : e.1 = k
      · rw [if_pos hek] at heq
        obtain ⟨hj, hv⟩ := Prod.mk.inj heq
        exact ⟨e.2, mem_rows_iff.mp (by rw [← hj]; exact he), hv⟩
      · rw [if_neg hek] at heq
        exact absurd (by rw [heq]; exact hjk) hek
    · intro h
      obtain ⟨w, hw, hv⟩ := h
      exact ⟨(j, w), mem_rows_iff.mpr hw, by rw [if_pos hjk, hv]⟩
  · rw [if_neg hjk, ← mem_rows_iff]
    constructor
    · intro h
      obtain ⟨e, he, heq⟩ := h
      by_cases hek : e.1 = k
      · rw [if_pos hek] at heq
        exact absurd ((Prod.mk.inj heq).1.symm.trans hek) hjk
      · rw [if_neg hek] at heq
        rw [← heq]
        exact he
    · intro h
      exact ⟨(j, v), h, if_neg hjk⟩

theorem get_entry (k j : κ) (d : ν) (f : ν → ν) :
    (t.entry k d f).get j = if j = k then some (f ((t.get k).getD d)) else t.get j := by
  rw [entry]
  split
  · rename_i hmem
    obtain ⟨v, hv⟩ : ∃ v, t.get k = some v := by
      rw [← Option.isSome_iff_exists, Option.isSome_iff_ne_none, Ne, get_eq_none_iff]
      exact not_not.mpr hmem
    rw [get_modify]
    by_cases hjk : j = k
    · rw [if_pos hjk, if_pos hjk, hjk, hv]
      rfl
    · rw [if_neg hjk, if_neg hjk]
  · rename_i hmem
    have hnone : t.get k = none := get_eq_none_iff.mpr hmem
    apply get_eq_of_mem_rows
    intro v
    rw [List.mem_append, List.mem_singleton, mem_rows_iff, Prod.mk.injEq]
    by_cases hjk : j = k
    · rw [if_pos hjk, hjk, hnone]
      simp [eq_comm]
    · rw [if_neg hjk]
      simp [hjk]

theorem get_mapValues (f : ν → ν) (k : κ) :
    (t.mapValues f).get k = (t.get k).map f := by
  apply get_eq_of_mem_rows
  intro v
  show (k, v) ∈ t.rows.map (fun e => (e.1, f e.2)) ↔ _
  rw [List.mem_map, Option.map_eq_some_iff]
  constructor
  · intro h
    obtain ⟨e, he, heq⟩ := h
    obtain ⟨hk, hv⟩ := Prod.mk.inj heq
    exact ⟨e.2, mem_rows_iff.mp (by rw [← hk]; exact he), hv⟩
  · intro h
    obtain ⟨w, hw, hv⟩ := h
    exact ⟨(k, w), mem_rows_iff.mpr hw, by rw [hv]⟩

end Table
