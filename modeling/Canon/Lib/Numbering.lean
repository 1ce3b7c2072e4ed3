import Mathlib.Algebra.GroupWithZero.Nat
import Canon.Lib.Maps

/-! # Numbers for keys

    A growing list of places, some of which hold a key.  A key enters at the next place
    when it is first asked for, and its number is that place as a 32 bit word.  Nothing
    ever leaves, so numbers stay; they are told apart as long as no key enters a whole
    multiple of `2 ^ 32` places behind another.
-/

structure KeyNumbering (κ : Type) where
  slots : List (Option κ)
  index : FMap κ UInt32
  /-- Every number that was given out, with the key it was for. -/
  issued : List (κ × UInt32)

namespace KeyNumbering

variable {κ : Type} [DecidableEq κ]

def empty : KeyNumbering κ where
  slots := []
  index := FMap.empty
  issued := []

inductive Op (κ : Type) where
  | intern (k : κ)
  /-- A place without a key. -/
  | skip
  | idle

def step (t : KeyNumbering κ) : Op κ → KeyNumbering κ
  | .idle => t
  | .skip => { t with slots := t.slots ++ [none] }
  | .intern k =>
    match t.index k with
    | some id => { t with issued := t.issued ++ [(k, id)] }
    | none =>
      let id := UInt32.ofNat t.slots.length
      ⟨t.slots ++ [some k], t.index.insert k id, t.issued ++ [(k, id)]⟩

variable {t : KeyNumbering κ}

theorem step_intern_known {k : κ} {id : UInt32} (h : t.index k = some id) :
    t.step (.intern k) = { t with issued := t.issued ++ [(k, id)] } := by
  simp [step, h]

theorem step_intern_new {k : κ} (h : t.index k = none) :
    t.step (.intern k) = ⟨t.slots ++ [some k], t.index.insert k (.ofNat t.slots.length),
      t.issued ++ [(k, .ofNat t.slots.length)]⟩ := by
  simp [step, h]

/-! ### Invariant -/

structure Inv (t : KeyNumbering κ) : Prop where
  placed : ∀ k id, t.index k = some id → ∃ i, t.slots[i]? = some (some k) ∧ UInt32.ofNat i = id
  known : ∀ i k, t.slots[i]? = some (some k) → t.index k = some (UInt32.ofNat i)
  given : ∀ k id, (k, id) ∈ t.issued ↔ t.index k = some id

omit [DecidableEq κ] in
theorem inv_empty : (empty : KeyNumbering κ).Inv where
  placed := by intro k id h; cases h
  known := by intro i k h; simp [empty] at h
  given := by intro k id; simp [empty]

omit [DecidableEq κ] in
/-- The last place, or one that was there before. -/
theorem getElem?_concat_eq_some {e x : Option κ} {i : Nat} (slots : List (Option κ)) :
    (slots ++ [e])[i]? = some x ↔ slots[i]? = some x ∨ i = slots.length ∧ e = x := by
  rw [List.getElem?_append]
  split
  · rename_i hlt
    constructor
    · exact .inl
    · rintro (h | ⟨hi, -⟩)
      · exact h
      · omega
  · rename_i hge
    rw [List.getElem?_eq_none (Nat.not_lt.mp hge)]
    by_cases hi : i = slots.length
    · simp [hi]
    · have hpos : i - slots.length ≠ 0 := by omega
      simp [hi, hpos]

theorem Inv.step_skip (h : t.Inv) : (t.step .skip).Inv where
  placed := by
    intro k id hk
    obtain ⟨i, hi, hid⟩ := h.placed k id hk
    exact ⟨i, (getElem?_concat_eq_some _).mpr (.inl hi), hid⟩
  known := by
    intro i k hi
    rcases (getElem?_concat_eq_some _).mp hi with hi | ⟨-, he⟩
    · exact h.known i k hi
    · cases he
  given := h.given

theorem Inv.step_intern_new (h : t.Inv) {k : κ} (hnew : t.index k = none) :
    (t.step (.intern k)).Inv := by
  rw [KeyNumbering.step_intern_new hnew]
  refine ⟨?_, ?_, ?_⟩
  · intro j id hj
    dsimp only at hj ⊢
    rw [FMap.insert_apply] at hj
    split at hj
    · rename_i hjk
      refine ⟨t.slots.length, (getElem?_concat_eq_some _).mpr (.inr ⟨rfl, by rw [hjk]⟩), ?_⟩
      exact Option.some.inj hj
    · obtain ⟨i, hi, hid⟩ := h.placed j id hj
      exact ⟨i, (getElem?_concat_eq_some _).mpr (.inl hi), hid⟩
  · intro i j hi
    dsimp only at hi ⊢
    rcases (getElem?_concat_eq_some _).mp hi with hi | ⟨rfl, he⟩
    · have hj := h.known i j hi
      have hne : j ≠ k := by
        intro hjk
        rw [hjk, hnew] at hj
        cases hj
      rw [FMap.insert_of_ne _ _ hne, hj]
    · rw [← Option.some.inj he, FMap.insert_self]
  · intro j id
    dsimp only
    rw [List.mem_append, List.mem_singleton, h.given, FMap.insert_apply]
    split
    · rename_i hjk
      rw [hjk, hnew]
      simp [eq_comm]
    · rename_i hjk
      simp [hjk]

theorem Inv.step (h : t.Inv) (op : Op κ) : (t.step op).Inv := by
  cases op with
  | idle => exact h
  | skip => exact h.step_skip
  | intern k =>
    cases hk : t.index k with
    | none => exact h.step_intern_new hk
    | some id =>
      rw [step_intern_known hk]
      refine ⟨h.placed, h.known, ?_⟩
      intro j id'
      dsimp only
      rw [List.mem_append, List.mem_singleton, h.given, Prod.mk.injEq]
      constructor
      · rintro (hj | ⟨rfl, rfl⟩)
        · exact hj
        · exact hk
      · exact .inl

/-! ### Telling keys apart -/

/-- Equal keys have equal numbers, distinct keys distinct ones. -/
def Separates (issued : List (κ × UInt32)) : Prop :=
  ∀ e ∈ issued, ∀ e' ∈ issued, (e.2 = e'.2 ↔ e.1 = e'.1)

/-- No key stands where its number would be the one of the next place. -/
def Room (t : KeyNumbering κ) : Prop :=
  ∀ p k, t.slots[p]? = some (some k) → p % 2 ^ 32 ≠ t.slots.length % 2 ^ 32

def Fits (t : KeyNumbering κ) : Op κ → Prop
  | .intern k => t.index k = none → t.Room
  | .skip => True
  | .idle => True

omit [DecidableEq κ] in
theorem Inv.separates_iff (h : t.Inv) :
    Separates t.issued ↔ ∀ k k' id, t.index k = some id → t.index k' = some id → k = k' := by
  constructor
  · intro hsep k k' id hk hk'
    exact (hsep (k, id) ((h.given k id).mpr hk) (k', id) ((h.given k' id).mpr hk')).mp rfl
  · rintro hinj ⟨k, id⟩ he ⟨k', id'⟩ he'
    have hk := (h.given k id).mp he
    have hk' := (h.given k' id').mp he'
    constructor
    · rintro rfl
      exact hinj k k' id hk hk'
    · rintro rfl
      exact Option.some.inj (hk.symm.trans hk')

theorem ofNat_eq_iff (i j : Nat) :
    UInt32.ofNat i = UInt32.ofNat j ↔ i % 2 ^ 32 = j % 2 ^ 32 := by
  rw [← UInt32.toNat_inj, UInt32.toNat_ofNat', UInt32.toNat_ofNat']

/-- A new key is told apart exactly if it has room. -/
theorem Inv.separates_intern_new_iff (h : t.Inv) (hsep : Separates t.issued) {k : κ}
    (hnew : t.index k = none) : Separates (t.step (.intern k)).issued ↔ t.Room := by
  rw [(h.step (.intern k)).separates_iff, KeyNumbering.step_intern_new hnew]
  have hinj := h.separates_iff.mp hsep
  constructor
  · intro hsep' p k' hp hcong
    have hk' := h.known p k' hp
    have hne : k' ≠ k := by
      rintro rfl
      rw [hnew] at hk'
      cases hk'
    rw [(ofNat_eq_iff _ _).mpr hcong] at hk'
    exact hne (hsep' k' k _ ((FMap.insert_of_ne _ _ hne).trans hk') (FMap.insert_self _ _ _))
  · intro hroom
    -- No key had the new number.
    have hfree : ∀ k', t.index k' ≠ some (UInt32.ofNat t.slots.length) := by
      intro k' hk'
      obtain ⟨i, hi, hid⟩ := h.placed k' _ hk'
      exact hroom i k' hi ((ofNat_eq_iff _ _).mp hid)
    intro j j' id hj hj'
    dsimp only at hj hj'
    rw [FMap.insert_apply] at hj hj'
    split at hj
    · split at hj'
      · rename_i h1 h2
        rw [h1, h2]
      · rw [← Option.some.inj hj] at hj'
        exact absurd hj' (hfree j')
    · split at hj'
      · rw [← Option.some.inj hj'] at hj
        exact absurd hj (hfree j)
      · exact hinj j j' id hj hj'

theorem Inv.separates_step_iff (h : t.Inv) (hsep : Separates t.issued) (op : Op κ) :
    Separates (t.step op).issued ↔ t.Fits op := by
  cases op with
  | idle => exact iff_of_true hsep trivial
  | skip => exact iff_of_true hsep trivial
  | intern k =>
    cases hk : t.index k with
    | none =>
      rw [h.separates_intern_new_iff hsep hk]
      exact ⟨fun hroom _ => hroom, fun hfits => hfits hk⟩
    | some id =>
      have hsame : Separates (t.step (.intern k)).issued := by
        rw [(h.step _).separates_iff, step_intern_known hk]
        exact h.separates_iff.mp hsep
      apply iff_of_true hsame
      intro hnone
      rw [hk] at hnone
      cases hnone

/-! ### Tables that hold a key at every place -/

omit [DecidableEq κ] in
/-- A number leads back to its key. -/
theorem Inv.getElem?_of_full (h : t.Inv) (hfull : none ∉ t.slots) (hsep : Separates t.issued)
    {e : κ × UInt32} (he : e ∈ t.issued) : t.slots[e.2.toNat]? = some (some e.1) := by
  have hk := (h.given e.1 e.2).mp he
  obtain ⟨i, hi, hid⟩ := h.placed e.1 e.2 hk
  have hlt : i < t.slots.length := (List.getElem?_eq_some_iff.mp hi).1
  have hnum : e.2.toNat = i % 2 ^ 32 := by rw [← hid, UInt32.toNat_ofNat']
  have hle : e.2.toNat < t.slots.length := by
    have := Nat.mod_le i (2 ^ 32)
    omega
  cases hslot : t.slots[e.2.toNat] with
  | none => exact absurd (hslot ▸ List.getElem_mem hle) hfull
  | some k =>
    have hget : t.slots[e.2.toNat]? = some (some k) := by
      rw [List.getElem?_eq_getElem hle, hslot]
    have hother := h.known _ k hget
    rw [UInt32.ofNat_toNat] at hother
    rw [hget, h.separates_iff.mp hsep k e.1 e.2 hother hk]

omit [DecidableEq κ] in
theorem room_iff_of_full (hfull : none ∉ t.slots) : t.Room ↔ t.slots.length < 2 ^ 32 := by
  constructor
  · intro hroom
    by_contra hge
    -- The place whose number comes round again.
    have hmod : t.slots.length % 2 ^ 32 < t.slots.length := by
      have := Nat.mod_lt t.slots.length (show 0 < 2 ^ 32 by decide)
      omega
    cases hslot : t.slots[t.slots.length % 2 ^ 32] with
    | none => exact hfull (hslot ▸ List.getElem_mem hmod)
    | some k =>
      apply hroom (t.slots.length % 2 ^ 32) k
      · rw [List.getElem?_eq_getElem hmod, hslot]
      · exact Nat.mod_mod _ _
  · intro hlt p k hp
    have hp : p < t.slots.length := (List.getElem?_eq_some_iff.mp hp).1
    omega

end KeyNumbering
