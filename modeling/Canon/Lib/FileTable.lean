import Canon.Lib.Bytes
import Mathlib.Data.List.Sort

/-! # A directory of numbered files

    The files of one kind in a directory, as pairs of a number (the file's name)
    and its contents.  The order of the list is the order of creation; readers
    that care about order sort by number first.
-/

abbrev FileTable := List (Nat × Bytes)

namespace FileTable

variable {bs : Bytes} (t : FileTable) (n : Nat)

/-- The contents of file `n`, when it exists. -/
def contents : Option Bytes := List.lookup n t

/-- Open for writing, creating the file when it is missing. -/
def create : FileTable :=
  if t.any (·.1 == n) then t else t ++ [(n, [])]

/-- Change the contents of file `n`, if there is one. -/
def modify (f : Bytes → Bytes) : FileTable :=
  t.map fun e => if e.1 = n then (e.1, f e.2) else e

def append (bs : Bytes) : FileTable := t.modify n (· ++ bs)

/-- Cut file `n` down to its first `len` bytes. -/
def setLen (n len : Nat) : FileTable := t.modify n (·.take len)

/-- Open file `n` for writing from scratch. -/
def truncate : FileTable := (t.create n).setLen n 0

def remove : FileTable := t.filter (·.1 != n)

/-- The size of file `n`, zero when there is none. -/
def size : Nat := ((t.contents n).getD []).length

/-- The entries by ascending number. -/
def sorted : FileTable := t.mergeSort (fun a b => a.1 ≤ b.1)

/-- The largest number in use. -/
def latest? : Option Nat := (t.map (·.1)).max?

/-! ### Looking up after a change -/

theorem contents_cons (e : Nat × Bytes) (t : FileTable) (m : Nat) :
    contents (e :: t) m = if m = e.1 then some e.2 else t.contents m := by
  obtain ⟨k, bs⟩ := e
  by_cases h : m = k
  · simp [contents, h]
  · have hne : (m == k) = false := by simpa using h
    simp [contents, List.lookup_cons, h, hne]

theorem contents_eq_none_iff {t : FileTable} {n : Nat} :
    t.contents n = none ↔ t.any (·.1 == n) = false := by
  induction t with
  | nil => simp [contents]
  | cons e t ih =>
    rw [contents_cons]
    by_cases h : n = e.1
    · simp [h]
    · have hne : (e.1 == n) = false := by simpa using fun h' => h h'.symm
      simp [h, hne, ih]

theorem contents_append (t u : FileTable) (n : Nat) :
    contents (t ++ u) n = (t.contents n).or (u.contents n) := by
  simp [contents, List.lookup_append]

theorem contents_modify (n m : Nat) (f : Bytes → Bytes) :
    (t.modify n f).contents m = if m = n then (t.contents m).map f else t.contents m := by
  induction t with
  | nil => simp [modify, contents]
  | cons e t ih =>
    have hcons : modify (e :: t) n f
        = (if e.1 = n then (e.1, f e.2) else e) :: FileTable.modify t n f := rfl
    rw [hcons, contents_cons, contents_cons, ih]
    by_cases hen : e.1 = n <;> by_cases hem : m = e.1
    · simp [hen, hem]
    · have hmn : ¬ m = n := fun h => hem (h.trans hen.symm)
      simp [hen, hmn]
    · simp [hem, hen]
    · simp [hen, hem]

theorem contents_create (n m : Nat) :
    (t.create n).contents m
      = if m = n then some ((t.contents n).getD []) else t.contents m := by
  unfold create
  by_cases h : t.any (·.1 == n)
  · rw [if_pos h]
    by_cases hmn : m = n
    · subst hmn
      cases hc : t.contents m with
      | none => rw [contents_eq_none_iff.mp hc] at h; cases h
      | some bs => simp
    · rw [if_neg hmn]
  · rw [if_neg h, contents_append]
    have hnone : t.contents n = none := contents_eq_none_iff.mpr (Bool.not_eq_true _ ▸ h)
    by_cases hmn : m = n
    · simp [hmn, hnone, contents_cons]
    · have hlast : contents [(n, [])] m = none := by
        rw [contents_cons, if_neg hmn]
        rfl
      simp [hmn, hlast]

/-! ### Tables in ascending order -/

/-- Every number occurs once and the list is in ascending order. -/
def Ascending : Prop := (t.map (·.1)).Pairwise (· < ·)

theorem sorted_of_ascending {t : FileTable} (h : t.Ascending) : t.sorted = t := by
  apply List.mergeSort_of_pairwise
  have hlt : t.Pairwise fun a b => a.1 < b.1 := List.pairwise_map.mp h
  exact hlt.imp fun hab => by simpa using hab.le

theorem ascending_concat {t : FileTable} {n : Nat} (h : t.Ascending) (hlt : ∀ e ∈ t, e.1 < n) :
    Ascending (t ++ [(n, bs)]) := by
  simp only [Ascending, List.map_append, List.map_cons, List.map_nil, List.pairwise_append]
  refine ⟨h, by simp, ?_⟩
  intro a ha b hb
  obtain ⟨e, he, rfl⟩ := List.mem_map.mp ha
  rw [List.mem_singleton] at hb
  subst hb
  exact hlt e he

theorem modify_concat_self {t : FileTable} {n : Nat} (f : Bytes → Bytes) (hlt : ∀ e ∈ t, e.1 < n) :
    modify (t ++ [(n, bs)]) n f = t ++ [(n, f bs)] := by
  have hid : t.map (fun e => if e.1 = n then (e.1, f e.2) else e) = t := by
    conv_rhs => rw [← List.map_id t]
    apply List.map_congr_left
    intro e he
    simp [(hlt e he).ne]
  simp [modify, hid]

theorem create_concat_self {t : FileTable} {n : Nat} :
    create (t ++ [(n, bs)]) n = t ++ [(n, bs)] := by
  simp [create]

theorem create_of_lt {t : FileTable} {n : Nat} (hlt : ∀ e ∈ t, e.1 < n) :
    t.create n = t ++ [(n, [])] := by
  have hnone : t.any (·.1 == n) = false := by
    simp only [List.any_eq_false, beq_iff_eq]
    intro e he
    exact (hlt e he).ne
  simp [create, hnone]

/-- Opening a file at or behind the last number adds at most an empty file. -/
theorem create_of_le {t : FileTable} {n : Nat} (hle : ∀ e ∈ t, e.1 ≤ n) :
    t.create n = t ∨ t.create n = t ++ [(n, [])] ∧ ∀ e ∈ t, e.1 < n := by
  cases hany : t.any (·.1 == n) with
  | true => exact .inl (by simp [create, hany])
  | false =>
    simp only [List.any_eq_false, beq_iff_eq] at hany
    have hlt : ∀ e ∈ t, e.1 < n := fun e he => lt_of_le_of_ne (hle e he) (hany e he)
    exact .inr ⟨create_of_lt hlt, hlt⟩

theorem contents_concat_self {t : FileTable} {n : Nat} (hlt : ∀ e ∈ t, e.1 < n) :
    contents (t ++ [(n, bs)]) n = some bs := by
  have hnone : t.contents n = none := by
    simp only [contents_eq_none_iff, List.any_eq_false, beq_iff_eq]
    intro e he
    exact (hlt e he).ne
  simp [contents_append, hnone, contents_cons]

theorem latest?_concat {t : FileTable} {n : Nat} (hlt : ∀ e ∈ t, e.1 < n) :
    latest? (t ++ [(n, bs)]) = some n := by
  simp only [latest?, List.map_append, List.map_cons, List.map_nil]
  rw [List.max?_eq_some_iff]
  refine ⟨by simp, ?_⟩
  intro b hb
  rcases List.mem_append.mp hb with hb | hb
  · obtain ⟨e, he, rfl⟩ := List.mem_map.mp hb
    exact (hlt e he).le
  · simp at hb
    omega

/-! ### Append-only changes -/

/-- Every file of `t` is still in `u` and has only grown at its end. -/
def Extends (t u : FileTable) : Prop :=
  ∀ n bs, t.contents n = some bs → ∃ more, u.contents n = some (bs ++ more)

theorem Extends.refl : t.Extends t := by
  intro n bs h
  exact ⟨[], by simpa using h⟩

theorem Extends.trans {t u v : FileTable} (h : t.Extends u) (h' : u.Extends v) :
    t.Extends v := by
  intro n bs hn
  obtain ⟨more, hu⟩ := h n bs hn
  obtain ⟨more', hv⟩ := h' n _ hu
  exact ⟨more ++ more', by rw [hv, List.append_assoc]⟩

theorem extends_append (bs : Bytes) : t.Extends (t.append n bs) := by
  intro m cs h
  by_cases hmn : m = n
  · exact ⟨bs, by simp [append, contents_modify, hmn, hmn ▸ h]⟩
  · exact ⟨[], by simp [append, contents_modify, hmn, h]⟩

theorem extends_create : t.Extends (t.create n) := by
  intro m cs h
  by_cases hmn : m = n
  · exact ⟨[], by simp [contents_create, hmn, hmn ▸ h]⟩
  · exact ⟨[], by simp [contents_create, hmn, h]⟩

/-- Emptying a file that holds nothing loses nothing. -/
theorem extends_truncate {t : FileTable} {n : Nat} (h : ∀ bs, t.contents n = some bs → bs = []) :
    t.Extends (t.truncate n) := by
  intro m cs hm
  refine ⟨[], ?_⟩
  by_cases hmn : m = n
  · subst hmn
    simp [truncate, setLen, contents_modify, contents_create, h cs hm]
  · simp [truncate, setLen, contents_modify, contents_create, hmn, hm]

end FileTable
