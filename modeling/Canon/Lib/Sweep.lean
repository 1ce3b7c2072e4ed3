import Mathlib.Data.List.Basic

/-! # Sweeping until nothing changes

    A sweep visits places one after the other, each visit working on what the visits before
    it have left.  Sweeps are repeated until one changes nothing.
-/

namespace Sweep

variable {σ ι : Type*} (visit : σ → ι → Option σ)

/-- One sweep, and whether it changed anything.  A visit without an effect yields nothing. -/
def sweep (places : List ι) (state : σ × Bool) : σ × Bool :=
  places.foldl
    (fun state i =>
      match visit state.1 i with
      | some next => (next, true)
      | none => state) state

/-- Sweeps until nothing changes, as long as the fuel lasts. -/
def settle (places : List ι) : Nat → σ → Option σ
  | 0, _ => none
  | fuel + 1, s =>
    let swept := sweep visit places (s, false)
    if swept.2 then settle places fuel swept.1 else some swept.1

variable {visit} {places : List ι} {I : σ → Prop} {μ : σ → Nat}

theorem sweep_cons_of_some {state : σ × Bool} {i : ι} {next : σ}
    (h : visit state.1 i = some next) (places : List ι) :
    sweep visit (i :: places) state = sweep visit places (next, true) := by
  rw [sweep, List.foldl_cons, h]
  rfl

theorem sweep_cons_of_none {state : σ × Bool} {i : ι} (h : visit state.1 i = none)
    (places : List ι) : sweep visit (i :: places) state = sweep visit places state := by
  rw [sweep, List.foldl_cons, h]
  rfl

theorem sweep_invariant (hI : ∀ s t, ∀ i ∈ places, I s → visit s i = some t → I t)
    {state : σ × Bool} (h : I state.1) : I (sweep visit places state).1 := by
  induction places generalizing state with
  | nil => exact h
  | cons i places ih =>
    have hrest : ∀ s t, ∀ j ∈ places, I s → visit s j = some t → I t := fun s t j hj =>
      hI s t j (List.mem_cons_of_mem _ hj)
    cases hvisit : visit state.1 i with
    | none =>
      rw [sweep_cons_of_none hvisit]
      exact ih hrest h
    | some next =>
      rw [sweep_cons_of_some hvisit]
      exact ih hrest (hI _ _ i List.mem_cons_self h hvisit)

/-- A sweep without a change leaves every visit without effect. -/
theorem sweep_unchanged {state : σ × Bool} (h : (sweep visit places state).2 = false) :
    (sweep visit places state).1 = state.1 ∧ state.2 = false ∧
      ∀ i ∈ places, visit state.1 i = none := by
  induction places generalizing state with
  | nil => exact ⟨rfl, h, by simp⟩
  | cons i places ih =>
    cases hvisit : visit state.1 i with
    | none =>
      rw [sweep_cons_of_none hvisit] at h ⊢
      obtain ⟨hstate, hflag, hall⟩ := ih h
      refine ⟨hstate, hflag, ?_⟩
      intro j hj
      rcases List.mem_cons.mp hj with rfl | hj
      · exact hvisit
      · exact hall j hj
    | some next =>
      rw [sweep_cons_of_some hvisit] at h
      have hflag := (ih h).2.1
      cases hflag

theorem sweep_measure_le (hI : ∀ s t, ∀ i ∈ places, I s → visit s i = some t → I t)
    (hμ : ∀ s t, ∀ i ∈ places, I s → visit s i = some t → μ t < μ s) {state : σ × Bool}
    (h : I state.1) :
    μ (sweep visit places state).1 ≤ μ state.1 ∧
      ((sweep visit places state).2 = true → state.2 = true ∨
        μ (sweep visit places state).1 < μ state.1) := by
  induction places generalizing state with
  | nil => exact ⟨Nat.le_refl _, .inl⟩
  | cons i places ih =>
    have hrest : ∀ s t, ∀ j ∈ places, I s → visit s j = some t → I t := fun s t j hj =>
      hI s t j (List.mem_cons_of_mem _ hj)
    have hless : ∀ s t, ∀ j ∈ places, I s → visit s j = some t → μ t < μ s := fun s t j hj =>
      hμ s t j (List.mem_cons_of_mem _ hj)
    cases hvisit : visit state.1 i with
    | none =>
      rw [sweep_cons_of_none hvisit]
      exact ih hrest hless h
    | some next =>
      rw [sweep_cons_of_some hvisit]
      have hlower := hμ _ _ i List.mem_cons_self h hvisit
      obtain ⟨hle, -⟩ := @ih hrest hless (next, true) (hI _ _ i List.mem_cons_self h hvisit)
      refine ⟨Nat.le_trans hle (Nat.le_of_lt hlower), ?_⟩
      intro _
      exact .inr (Nat.lt_of_le_of_lt hle hlower)

/-- Visits that keep an invariant and lower a measure settle. -/
theorem settle_spec (hI : ∀ s t, ∀ i ∈ places, I s → visit s i = some t → I t)
    (hμ : ∀ s t, ∀ i ∈ places, I s → visit s i = some t → μ t < μ s) {fuel : Nat} {s : σ}
    (h : I s) (hfuel : μ s < fuel) :
    ∃ t, settle visit places fuel s = some t ∧ I t ∧ ∀ i ∈ places, visit t i = none := by
  induction fuel generalizing s with
  | zero => omega
  | succ fuel ih =>
    rw [settle]
    have hswept : I (sweep visit places (s, false)).1 := sweep_invariant hI h
    cases hflag : (sweep visit places (s, false)).2 with
    | true =>
      have hmeasure := (@sweep_measure_le σ ι visit places I μ hI hμ (s, false) h).2 hflag
      have hlower : μ (sweep visit places (s, false)).1 < μ s := by
        rcases hmeasure with hfalse | hlower
        · cases hfalse
        · exact hlower
      simp only [if_true]
      exact ih hswept (by omega)
    | false =>
      obtain ⟨hsame, -, hall⟩ := sweep_unchanged hflag
      refine ⟨s, ?_, h, hall⟩
      simp [hsame]

/-- More fuel settles the same. -/
theorem settle_mono {fuel more : Nat} {s t : σ} (h : settle visit places fuel s = some t)
    (hle : fuel ≤ more) : settle visit places more s = some t := by
  induction fuel generalizing s more with
  | zero => cases h
  | succ fuel ih =>
    obtain ⟨more, rfl⟩ : ∃ m, more = m + 1 := ⟨more - 1, by omega⟩
    rw [settle] at h ⊢
    split
    · rename_i hflag
      rw [if_pos hflag] at h
      exact ih h (by omega)
    · rename_i hflag
      rw [if_neg hflag] at h
      exact h

end Sweep
