import Mathlib.Data.List.Basic

/-! # Maps and vectors

    A hash map of which only single keys are read or written is a function into
    `Option`.  A growing vector is a list; `swapRemove` is the removal that fills
    the gap with the last element.
-/

/-! ### Maps -/

abbrev FMap (κ ν : Type) := κ → Option ν

namespace FMap

variable {κ ν : Type} [DecidableEq κ]

def empty : FMap κ ν := fun _ => none

variable {entries : List (κ × ν)} (m : FMap κ ν) (k : κ)

def insert (v : ν) : FMap κ ν := fun j => if j = k then some v else m j

def erase : FMap κ ν := fun j => if j = k then none else m j

omit [DecidableEq κ] in
@[simp] theorem empty_apply : (empty : FMap κ ν) k = none := rfl

theorem insert_apply (v : ν) (j : κ) :
    m.insert k v j = if j = k then some v else m j := rfl

@[simp] theorem insert_self (v : ν) : m.insert k v k = some v := by
  simp [insert]

@[simp] theorem insert_of_ne {k j : κ} (v : ν) (h : j ≠ k) :
    m.insert k v j = m j := by
  simp [insert, h]

theorem erase_apply (k j : κ) : m.erase k j = if j = k then none else m j := rfl

@[simp] theorem erase_self : m.erase k k = none := by
  simp [erase]

@[simp] theorem erase_of_ne {k j : κ} (h : j ≠ k) : m.erase k j = m j := by
  simp [erase, h]

/-- A map in which the entry of `k`, where there is one, was changed. -/
theorem modified_apply {m m' : FMap κ ν} {k : κ} {f : ν → ν} (hnone : m k = none → m' = m)
    (hsome : ∀ v, m k = some v → m' = m.insert k (f v)) (j : κ) :
    m' j = if k = j then (m j).map f else m j := by
  cases h : m k with
  | none =>
    rw [hnone h]
    by_cases hj : k = j
    · rw [if_pos hj, ← hj, h]
      rfl
    · rw [if_neg hj]
  | some v =>
    rw [hsome v h]
    by_cases hj : k = j
    · subst hj
      rw [insert_self, if_pos rfl, h]
      rfl
    · rw [insert_of_ne _ _ (Ne.symm hj), if_neg hj]

/-- Only the entries whose key passes the test. -/
def retain (test : κ → Bool) : FMap κ ν := fun j => if test j then m j else none

/-- One entry after the other; a later one replaces an earlier one. -/
def insertAll (entries : List (κ × ν)) : FMap κ ν :=
  entries.foldl (fun m e => m.insert e.1 e.2) m

theorem insertAll_concat (entries : List (κ × ν)) (e : κ × ν) :
    m.insertAll (entries ++ [e]) = (m.insertAll entries).insert e.1 e.2 := by
  simp [insertAll]

theorem insertAll_of_not_mem {k : κ} (h : ∀ e ∈ entries, e.1 ≠ k) (m : FMap κ ν) :
    m.insertAll entries k = m k := by
  induction entries generalizing m with
  | nil => rfl
  | cons e entries ih =>
    have htail : ∀ e' ∈ entries, e'.1 ≠ k := fun e' he' => h e' (by simp [he'])
    show insertAll (m.insert e.1 e.2) entries k = m k
    rw [ih htail, insert_of_ne _ _ (Ne.symm (h e (by simp)))]

theorem insertAll_cases {m : FMap κ ν} {k : κ} {v : ν} (h : m.insertAll entries k = some v) :
    m k = some v ∨ (k, v) ∈ entries := by
  induction entries generalizing m with
  | nil => exact .inl h
  | cons e entries ih =>
    rcases ih (m := m.insert e.1 e.2) h with hfirst | hlater
    · rw [insert_apply] at hfirst
      split at hfirst
      · rename_i hkey
        obtain rfl := Option.some.inj hfirst
        exact .inr (by simp [hkey])
      · exact .inl hfirst
    · exact .inr (List.mem_cons_of_mem _ hlater)

/-- A key whose entries all agree. -/
theorem insertAll_of_forall {k : κ} {v : ν} (hmem : (k, v) ∈ entries)
    (hall : ∀ e ∈ entries, e.1 = k → e.2 = v) (m : FMap κ ν) :
    m.insertAll entries k = some v := by
  induction entries generalizing m with
  | nil => cases hmem
  | cons e entries ih =>
    have htail : ∀ e' ∈ entries, e'.1 = k → e'.2 = v := fun e' he' => hall e' (by simp [he'])
    show insertAll (m.insert e.1 e.2) entries k = some v
    by_cases hlater : (k, v) ∈ entries
    · exact ih hlater htail _
    -- Then the first entry is the one, and no later entry has the key.
    · obtain rfl : (k, v) = e := by simpa [hlater] using hmem
      rw [insertAll_of_not_mem, insert_self]
      intro e' he' hkey
      apply hlater
      have hval := htail e' he' hkey
      rw [← hkey, ← hval]
      exact he'

/-- The last entry of a key counts. -/
theorem insertAll_of_last {r : Nat} {k : κ} {v : ν} (hr : entries[r]? = some (k, v))
    (hlast : ∀ r' e, entries[r']? = some e → e.1 = k → r' ≤ r) (m : FMap κ ν) :
    m.insertAll entries k = some v := by
  induction entries generalizing r m with
  | nil => cases hr
  | cons e entries ih =>
    show insertAll (m.insert e.1 e.2) entries k = some v
    cases r with
    | zero =>
      obtain rfl : e = (k, v) := Option.some.inj hr
      rw [insertAll_of_not_mem, insert_self]
      intro e' he' hkey
      obtain ⟨r', hr'⟩ := List.mem_iff_getElem?.mp he'
      have := hlast (r' + 1) e' hr' hkey
      omega
    | succ r =>
      apply ih hr
      intro r' e' he' hkey
      have := hlast (r' + 1) e' he' hkey
      omega

/-- A map filled from a list, where equal keys have equal values. -/
theorem insertAll_map {α : Type} {l : List α} {f : α → κ} {g : α → ν} {a : α}
    (ha : a ∈ l) (hall : ∀ b ∈ l, f b = f a → g b = g a) (m : FMap κ ν) :
    m.insertAll (l.map fun b => (f b, g b)) (f a) = some (g a) := by
  apply insertAll_of_forall
  · exact List.mem_map.mpr ⟨a, ha, rfl⟩
  · intro e he hkey
    obtain ⟨b, hb, rfl⟩ := List.mem_map.mp he
    exact hall b hb hkey

end FMap

/-! ### Removal by swapping -/

section SwapRemove

variable {α : Type}

/-- Remove position `i` and put the last element there; nothing on an empty list. -/
def swapRemove (l : List α) (i : Nat) : List α :=
  match l.getLast? with
  | none => []
  | some last => l.dropLast.set i last

@[simp] theorem swapRemove_concat (l : List α) (last : α) (i : Nat) :
    swapRemove (l ++ [last]) i = l.set i last := by
  simp [swapRemove]

end SwapRemove
