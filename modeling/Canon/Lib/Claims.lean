import Canon.Lib.Maps

/-! # Claims on keys

    A table says who holds which key.  Whoever wants several keys takes them one
    after the other, and a second table records what it took, to be given back
    later.

    * `Free`: a key that may be taken,
    * `claimed`, `released`: the table after keys are taken and given back,
    * `Recorded`: everything held is on record with its holder.
-/

namespace Claims

variable {κ ω ι : Type} [DecidableEq κ]
variable (t : FMap κ ω) (ks : List κ)

/-- Nobody else holds the key. -/
def Free (who : ω) (k : κ) : Prop := ∀ other, t k = some other → other = who

instance [DecidableEq ω] (t : FMap κ ω) (who : ω) (k : κ) : Decidable (Free t who k) :=
  match h : t k with
  | none => isTrue (by simp [Free, h])
  | some other => decidable_of_iff (other = who) (by simp [Free, h])

def claimed (who : ω) (ks : List κ) : FMap κ ω :=
  fun k => if k ∈ ks then some who else t k

def released : FMap κ ω := fun k => if k ∈ ks then none else t k

@[simp] theorem claimed_nil (who : ω) : claimed t who [] = t := by
  funext k
  simp [claimed]

theorem claimed_insert (who : ω) (k : κ) (ks : List κ) :
    claimed (t.insert k who) who ks = claimed t who (k :: ks) := by
  funext j
  by_cases hj : j = k
  · simp [claimed, hj]
  · simp [claimed, hj]

theorem released_erase (k : κ) (ks : List κ) :
    released (t.erase k) ks = released t (k :: ks) := by
  funext j
  by_cases hj : j = k
  · simp [released, hj]
  · simp [released, hj]

/-- Taking keys changes nothing just when they were held already. -/
theorem claimed_eq_self_iff {t : FMap κ ω} {who : ω} {ks : List κ} :
    claimed t who ks = t ↔ ∀ k ∈ ks, t k = some who := by
  constructor
  · intro h k hk
    have hself := congrFun h k
    rw [claimed, if_pos hk] at hself
    exact hself.symm
  · intro h
    funext k
    by_cases hk : k ∈ ks
    · rw [claimed, if_pos hk, h k hk]
    · rw [claimed, if_neg hk]

/-- A key that was free stays free for its taker, and no other becomes free. -/
theorem free_insert_iff {t : FMap κ ω} {who : ω} {k : κ} (hk : Free t who k) (j : κ) :
    Free (t.insert k who) who j ↔ Free t who j := by
  by_cases hj : j = k
  · rw [hj]
    constructor
    · intro _
      exact hk
    · intro _ other hother
      rw [FMap.insert_self] at hother
      exact (Option.some.inj hother).symm
  · simp [Free, hj]

/-! ### On record -/

/-- Every key held is on record with its holder; `name` tells holders apart. -/
def Recorded (name : ι → ω) (t : FMap κ ω) (record : FMap ι (List κ)) : Prop :=
  ∀ k other, t k = some other → ∃ i ks, other = name i ∧ record i = some ks ∧ k ∈ ks

section Recorded

variable [DecidableEq ι] {name : ι → ω} {t : FMap κ ω} {record : FMap ι (List κ)}

omit [DecidableEq κ] [DecidableEq ι] in
theorem recorded_empty (record : FMap ι (List κ)) : Recorded name FMap.empty record := by
  intro k other h
  simp at h

/-- Keys taken and put on record: the new entry has to cover what the holder had. -/
theorem Recorded.claim (h : Recorded name t record) {i : ι}
    {ks : List κ} (hcover : ∀ k, t k = some (name i) → k ∈ ks) :
    Recorded name (claimed t (name i) ks) (record.insert i ks) := by
  intro k other hk
  by_cases hmem : k ∈ ks
  · rw [claimed, if_pos hmem] at hk
    exact ⟨i, ks, (Option.some.inj hk).symm, by simp, hmem⟩
  · rw [claimed, if_neg hmem] at hk
    obtain ⟨j, js, rfl, hj, hkjs⟩ := h k other hk
    by_cases hij : j = i
    · rw [hij] at hk
      exact absurd (hcover k hk) hmem
    · exact ⟨j, js, rfl, by rw [FMap.insert_of_ne _ _ hij, hj], hkjs⟩

/-- The keys on record are given back, and the record is closed. -/
theorem Recorded.release (h : Recorded name t record) {i : ι} {ks : List κ}
    (hi : record i = some ks) : Recorded name (released t ks) (record.erase i) := by
  intro k other hk
  by_cases hmem : k ∈ ks
  · rw [released, if_pos hmem] at hk
    cases hk
  · rw [released, if_neg hmem] at hk
    obtain ⟨j, js, rfl, hj, hkjs⟩ := h k other hk
    by_cases hij : j = i
    · rw [hij, hi] at hj
      obtain rfl := Option.some.inj hj
      exact absurd hkjs hmem
    · exact ⟨j, js, rfl, by rw [FMap.erase_of_ne _ hij, hj], hkjs⟩

omit [DecidableEq ι] in
/-- Who has given back what is on record holds nothing more. -/
theorem Recorded.released_ne (h : Recorded name t record) (hname : Function.Injective name) {i : ι}
    {ks : List κ} (hi : record i = some ks) (k : κ) : released t ks k ≠ some (name i) := by
  intro hk
  by_cases hmem : k ∈ ks
  · rw [released, if_pos hmem] at hk
    cases hk
  · rw [released, if_neg hmem] at hk
    obtain ⟨j, js, hij, hj, hkjs⟩ := h k _ hk
    obtain rfl := hname hij
    rw [hi] at hj
    obtain rfl := Option.some.inj hj
    exact hmem hkjs

omit [DecidableEq κ] [DecidableEq ι] in
/-- Who has nothing on record holds nothing. -/
theorem Recorded.ne_of_none (h : Recorded name t record) (hname : Function.Injective name) {i : ι}
    (hi : record i = none) (k : κ) : t k ≠ some (name i) := by
  intro hk
  obtain ⟨j, js, hij, hj, -⟩ := h k _ hk
  obtain rfl := hname hij
  rw [hi] at hj
  cases hj

end Recorded

end Claims
