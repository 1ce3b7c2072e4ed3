import Mathlib.Data.List.NodupEquivFin
import Canon.Lib.Decimal

/-! # Labels of nodes

    `build_unique_labels` of `tlog_writer.rs`, over the list of the nodes' names: a name
    that occurs again gets the position of its node behind it, and so does a node without
    a name.  A name that stands alone is its own label, also when it looks like one of the
    others.
-/

namespace Canon.Ir

/-- The key a name is counted under. -/
def labelKey (name : Text) : Text := if name = [] then "<empty>".toList else name

def labelCount (names : List Text) (name : Text) : Nat :=
  (names.map labelKey).count (labelKey name)

def uniqueLabel (names : List Text) (idx : Nat) (name : Text) : Text :=
  if name = [] then "node".toList ++ '#' :: Text.ofNat idx
  else if labelCount names name > 1 then name ++ '#' :: Text.ofNat idx
  else name

def buildUniqueLabels (names : List Text) : List Text :=
  names.zipIdx.map fun e => uniqueLabel names e.2 e.1

theorem nodup_iff_getElem?_inj {α : Type} {l : List α} :
    l.Nodup ↔ ∀ (i j : Nat) (x : α), l[i]? = some x → l[j]? = some x → i = j := by
  rw [List.nodup_iff_getElem?_ne_getElem?]
  constructor
  · intro h i j x hi hj
    have hilt : i < l.length := (List.getElem?_eq_some_iff.mp hi).1
    have hjlt : j < l.length := (List.getElem?_eq_some_iff.mp hj).1
    rcases Nat.lt_trichotomy i j with hlt | heq | hlt
    · exact absurd (hi.trans hj.symm) (h i j hlt hjlt)
    · exact heq
    · exact absurd (hj.trans hi.symm) (h j i hlt hilt)
  · intro h i j hlt hj heq
    have hget : l[j]? = some l[j] := List.getElem?_eq_getElem hj
    exact absurd (h i j _ (heq.trans hget) hget) (Nat.ne_of_lt hlt)

/-! ### Generated labels -/

variable {names : List Text}

/-- A name that is its own label. -/
def Alone (names : List Text) (name : Text) : Prop :=
  name ∈ names ∧ name ≠ [] ∧ labelCount names name ≤ 1

/-- A label with the position of a node behind it. -/
def Generated (names : List Text) (label : Text) : Prop :=
  ∃ i name, names[i]? = some name ∧
    (name = [] ∧ label = "node".toList ++ '#' :: Text.ofNat i ∨
      name ≠ [] ∧ 1 < labelCount names name ∧ label = name ++ '#' :: Text.ofNat i)

theorem buildUniqueLabels_length (names : List Text) :
    (buildUniqueLabels names).length = names.length := by
  simp [buildUniqueLabels]

theorem buildUniqueLabels_getElem? (names : List Text) (i : Nat) :
    (buildUniqueLabels names)[i]? = (names[i]?).map (uniqueLabel names i) := by
  rw [buildUniqueLabels, List.getElem?_map, List.getElem?_zipIdx, Option.map_map]
  congr 1
  funext name
  simp

/-- A label is a name that stands alone or a generated one. -/
theorem uniqueLabel_cases {i : Nat} {name : Text} (h : names[i]? = some name) :
    (Alone names name ∧ uniqueLabel names i name = name) ∨
      ¬Alone names name ∧ Generated names (uniqueLabel names i name) ∧
        ∃ stem, uniqueLabel names i name = stem ++ '#' :: Text.ofNat i := by
  by_cases hempty : name = []
  · have hlabel : uniqueLabel names i name = "node".toList ++ '#' :: Text.ofNat i := if_pos hempty
    refine .inr ⟨fun halone => halone.2.1 hempty, ?_, "node".toList, hlabel⟩
    exact ⟨i, name, h, .inl ⟨hempty, hlabel⟩⟩
  · by_cases hcount : labelCount names name > 1
    · have hlabel : uniqueLabel names i name = name ++ '#' :: Text.ofNat i := by
        rw [uniqueLabel, if_neg hempty, if_pos hcount]
      refine .inr ⟨fun halone => Nat.not_lt.mpr halone.2.2 hcount, ?_, name, hlabel⟩
      exact ⟨i, name, h, .inr ⟨hempty, hcount, hlabel⟩⟩
    · refine .inl ⟨⟨List.mem_of_getElem? h, hempty, Nat.not_lt.mp hcount⟩, ?_⟩
      rw [uniqueLabel, if_neg hempty, if_neg hcount]

theorem uniqueLabel_ne_nil (names : List Text) (i : Nat) (name : Text) :
    uniqueLabel names i name ≠ [] := by
  unfold uniqueLabel
  split
  · simp
  · split
    · simp
    · assumption

/-- Every generated label is one. -/
theorem exists_of_generated {label : Text} (h : Generated names label) :
    ∃ i name, names[i]? = some name ∧ ¬Alone names name ∧ uniqueLabel names i name = label := by
  obtain ⟨i, name, hname, ⟨hempty, hlabel⟩ | ⟨hempty, hcount, hlabel⟩⟩ := h
  · refine ⟨i, name, hname, fun halone => halone.2.1 hempty, ?_⟩
    rw [uniqueLabel, if_pos hempty, hlabel]
  · refine ⟨i, name, hname, fun halone => Nat.not_lt.mpr halone.2.2 hcount, ?_⟩
    rw [uniqueLabel, if_neg hempty, if_pos hcount, hlabel]

/-- A name that stands alone has one place. -/
theorem Alone.eq_of_getElem? {name : Text} (h : Alone names name) {i j : Nat}
    (hi : names[i]? = some name) (hj : names[j]? = some name) : i = j := by
  by_contra hne
  have hkeyi : (names.map labelKey)[i]? = some (labelKey name) := by simp [hi]
  have hkeyj : (names.map labelKey)[j]? = some (labelKey name) := by simp [hj]
  obtain ⟨hilt, higet⟩ := List.getElem?_eq_some_iff.mp hkeyi
  obtain ⟨hjlt, hjget⟩ := List.getElem?_eq_some_iff.mp hkeyj
  have htwice : 2 ≤ labelCount names name := by
    apply List.replicate_sublist_iff.mp
    apply List.duplicate_iff_sublist.mp
    apply List.duplicate_iff_exists_distinct_get.mpr
    rcases Nat.lt_or_gt_of_ne hne with hlt | hlt
    · exact ⟨⟨i, hilt⟩, ⟨j, hjlt⟩, hlt, higet.symm, hjget.symm⟩
    · exact ⟨⟨j, hjlt⟩, ⟨i, hilt⟩, hlt, hjget.symm, higet.symm⟩
  exact absurd h.2.2 (by omega)

/-- Labels are pairwise distinct exactly if no name that stands alone is a generated
    label. -/
theorem nodup_buildUniqueLabels_iff (names : List Text) :
    (buildUniqueLabels names).Nodup ↔ ∀ name, Alone names name → ¬Generated names name := by
  rw [nodup_iff_getElem?_inj]
  constructor
  · intro hinj name halone hgen
    obtain ⟨i, other, hi, hother, hlabel⟩ := exists_of_generated hgen
    obtain ⟨j, hj⟩ := List.mem_iff_getElem?.mp halone.1
    have hself : uniqueLabel names j name = name := by
      rcases uniqueLabel_cases hj with ⟨-, h⟩ | ⟨h, -⟩
      · exact h
      · exact absurd halone h
    have hsame : i = j := by
      apply hinj i j name
      · rw [buildUniqueLabels_getElem?, hi, Option.map_some, hlabel]
      · rw [buildUniqueLabels_getElem?, hj, Option.map_some, hself]
    rw [hsame, hj] at hi
    rw [← Option.some.inj hi] at hother
    exact hother halone
  · intro hclear i j label hi hj
    rw [buildUniqueLabels_getElem?] at hi hj
    obtain ⟨x, hx, hlx⟩ := Option.map_eq_some_iff.mp hi
    obtain ⟨y, hy, hly⟩ := Option.map_eq_some_iff.mp hj
    rcases uniqueLabel_cases hx with ⟨hxa, hxl⟩ | ⟨-, hxg, xstem, hxl⟩
    · rcases uniqueLabel_cases hy with ⟨-, hyl⟩ | ⟨-, hyg, -⟩
      · have hxy : x = y := by rw [← hxl, ← hyl, hlx, hly]
        rw [← hxy] at hy
        exact hxa.eq_of_getElem? hx hy
      · rw [hly, ← hlx, hxl] at hyg
        exact absurd hyg (hclear x hxa)
    · rcases uniqueLabel_cases hy with ⟨hya, hyl⟩ | ⟨-, -, ystem, hyl⟩
      · rw [hlx, ← hly, hyl] at hxg
        exact absurd hxg (hclear y hya)
      -- The last number of a generated label is the position.
      · apply (Text.append_ofNat_inj (a := xstem) (b := ystem) (show '#'.isDigit = false by decide)
          _).2
        rw [← hxl, ← hyl, hlx, hly]

end Canon.Ir
