import Mathlib.Data.List.Basic

/-! # Deterministic machines, runs and simulation

    A `Machine` takes one action at a time.  Whatever the surroundings decide
    (the order of calls, clocks, fresh identifiers) is part of the action, so a
    run is a list of actions and its result is a fold.

    This module collects the rules the rest of the development argues with:
    * invariants, plain and under a guard on every step taken,
    * guards along a run and their behaviour under prefixes,
    * what holds in every state a run passes through,
    * histories,
    * simulation of one machine by another through a state mapping.
-/

universe u v w

/-- A machine with states `σ` and actions `α`. -/
structure Machine (σ : Type u) (α : Type v) where
  step : σ → α → σ

namespace Machine

variable {σ : Type u} {α : Type v} {τ : Type w}
variable (m : Machine σ α)

/-- The state after a list of actions. -/
def run (s : σ) (acts : List α) : σ :=
  acts.foldl m.step s

@[simp] theorem run_nil (s : σ) : m.run s [] = s := rfl

@[simp] theorem run_cons (s : σ) (a : α) (acts : List α) :
    m.run s (a :: acts) = m.run (m.step s a) acts := rfl

theorem run_append (s : σ) (as bs : List α) :
    m.run s (as ++ bs) = m.run (m.run s as) bs := by
  simp [run, List.foldl_append]

theorem run_snoc (s : σ) (as : List α) (a : α) :
    m.run s (as ++ [a]) = m.step (m.run s as) a := by
  simp [run_append]

/-! ### Guards along a run -/

/-- Every step of the run from `s` satisfies `G` in the state it is taken in. -/
def Along (m : Machine σ α) (G : σ → α → Prop) : σ → List α → Prop
  | _, [] => True
  | s, a :: acts => G s a ∧ m.Along G (m.step s a) acts

@[simp] theorem along_nil (m : Machine σ α) (G : σ → α → Prop) (s : σ) :
    m.Along G s [] := trivial

@[simp] theorem along_cons (m : Machine σ α) (G : σ → α → Prop) (s : σ) (a : α)
    (acts : List α) :
    m.Along G s (a :: acts) ↔ G s a ∧ m.Along G (m.step s a) acts := Iff.rfl

theorem along_append (m : Machine σ α) (G : σ → α → Prop) (s : σ) (as bs : List α) :
    m.Along G s (as ++ bs) ↔ m.Along G s as ∧ m.Along G (m.run s as) bs := by
  induction as generalizing s with
  | nil => simp
  | cons a as ih => simp [ih, and_assoc]

theorem along_snoc (m : Machine σ α) (G : σ → α → Prop) (s : σ) (as : List α) (a : α) :
    m.Along G s (as ++ [a]) ↔ m.Along G s as ∧ G (m.run s as) a := by
  simp [along_append]

theorem along_of_forall (m : Machine σ α) {G : σ → α → Prop} (h : ∀ s a, G s a) {s : σ}
    {acts : List α} : m.Along G s acts := by
  induction acts generalizing s with
  | nil => trivial
  | cons a acts ih => exact ⟨h s a, ih⟩

theorem along_congr (m : Machine σ α) {G G' : σ → α → Prop} (h : ∀ s a, G s a ↔ G' s a) (s : σ)
    (acts : List α) : m.Along G s acts ↔ m.Along G' s acts := by
  induction acts generalizing s with
  | nil => exact Iff.rfl
  | cons a acts ih => exact and_congr (h s a) (ih _)

instance Along.instDecidable (m : Machine σ α) (G : σ → α → Prop) [∀ s a, Decidable (G s a)] :
    (s : σ) → (acts : List α) → Decidable (m.Along G s acts)
  | _, [] => isTrue trivial
  | s, a :: acts =>
    have := Along.instDecidable m G (m.step s a) acts
    inferInstanceAs (Decidable (G s a ∧ m.Along G (m.step s a) acts))

/-! ### Invariants -/

/-- Invariant rule under a guard: what every guarded step keeps, the whole run
    keeps. -/
theorem run_invariant_of_along (m : Machine σ α) {G : σ → α → Prop} {I : σ → Prop}
    (hstep : ∀ s a, I s → G s a → I (m.step s a)) {s : σ} {acts : List α}
    (hinit : I s) (hguard : m.Along G s acts) : I (m.run s acts) := by
  induction acts generalizing s with
  | nil => exact hinit
  | cons a acts ih =>
    obtain ⟨hg, hrest⟩ := hguard
    exact ih (hstep s a hinit hg) hrest

/-- Invariant rule: what every step keeps, every run keeps. -/
theorem run_invariant {I : σ → Prop} (hstep : ∀ s a, I s → I (m.step s a)) {s : σ} (acts : List α)
    (hinit : I s) : I (m.run s acts) := by
  induction acts generalizing s with
  | nil => exact hinit
  | cons a acts ih => exact ih (hstep s a hinit)

/-- Under a guard and an invariant, two statements about each step that agree there
    agree along the whole run. -/
theorem along_congr_of_along (m : Machine σ α) {G P Q : σ → α → Prop} {I : σ → Prop}
    (hstep : ∀ s a, I s → G s a → I (m.step s a))
    (h : ∀ s a, I s → G s a → (P s a ↔ Q s a)) {s : σ} {acts : List α}
    (hinit : I s) (hguard : m.Along G s acts) : m.Along P s acts ↔ m.Along Q s acts := by
  induction acts generalizing s with
  | nil => exact Iff.rfl
  | cons a acts ih =>
    obtain ⟨hg, hrest⟩ := hguard
    exact and_congr (h s a hinit hg) (ih (hstep s a hinit hg) hrest)

/-! ### Every state of a run -/

/-- `P` holds in every state the run passes through. -/
def Throughout (m : Machine σ α) (P : σ → Prop) (s : σ) (acts : List α) : Prop :=
  ∀ taken, taken <+: acts → P (m.run s taken)

section Throughout

variable {P : σ → Prop}

@[simp] theorem throughout_nil (m : Machine σ α) (s : σ) : m.Throughout P s [] ↔ P s := by
  constructor
  · intro h
    exact h [] (List.nil_prefix)
  · intro h taken htaken
    rw [List.prefix_nil.mp htaken]
    exact h

theorem throughout_cons (m : Machine σ α) (s : σ) (a : α) (acts : List α) :
    m.Throughout P s (a :: acts) ↔ P s ∧ m.Throughout P (m.step s a) acts := by
  constructor
  · intro h
    refine ⟨h [] List.nil_prefix, ?_⟩
    intro taken htaken
    exact h (a :: taken) (List.cons_prefix_cons.mpr ⟨rfl, htaken⟩)
  · intro h taken htaken
    cases taken with
    | nil => exact h.1
    | cons b taken =>
      obtain ⟨rfl, hrest⟩ := List.cons_prefix_cons.mp htaken
      exact h.2 taken hrest

theorem throughout_snoc (m : Machine σ α) (s : σ) (acts : List α) (a : α) :
    m.Throughout P s (acts ++ [a]) ↔ m.Throughout P s acts ∧ P (m.run s (acts ++ [a])) := by
  constructor
  · intro h
    refine ⟨?_, h _ List.prefix_rfl⟩
    intro taken htaken
    exact h taken (htaken.trans (List.prefix_append _ _))
  · intro h taken htaken
    rcases List.prefix_concat_iff.mp htaken with rfl | htaken
    · exact h.2
    · exact h.1 taken htaken

theorem Throughout.first {m : Machine σ α} {s : σ} {acts : List α} (h : m.Throughout P s acts) :
    P s :=
  h [] List.nil_prefix

theorem throughout_append (m : Machine σ α) (s : σ) (as bs : List α) :
    m.Throughout P s (as ++ bs) ↔ m.Throughout P s as ∧ m.Throughout P (m.run s as) bs := by
  induction as generalizing s with
  | nil =>
    constructor
    · intro h
      exact ⟨(throughout_nil m s).mpr h.first, h⟩
    · intro h
      exact h.2
  | cons a as ih => simp only [List.cons_append, throughout_cons, run_cons, ih, and_assoc]

/-- What every state behind a step says of the step. -/
theorem along_of_throughout (m : Machine σ α) {G : σ → α → Prop}
    (h : ∀ s a, P (m.step s a) → G s a) {s : σ} {acts : List α}
    (hthroughout : m.Throughout P s acts) : m.Along G s acts := by
  induction acts generalizing s with
  | nil => trivial
  | cons a acts ih =>
    have hrest := ((throughout_cons m s a acts).mp hthroughout).2
    exact ⟨h s a hrest.first, ih hrest⟩

/-- Safety with its exact guard: if a step from a good state is right and leads to a
    good state exactly when the guard holds, then all steps of a run are right and all
    its states good exactly when all its steps are guarded. -/
theorem along_and_throughout_iff (m : Machine σ α) {G Q : σ → α → Prop} {I : σ → Prop}
    (hinv : ∀ s a, I s → I (m.step s a))
    (hstep : ∀ s a, I s → P s → (Q s a ∧ P (m.step s a) ↔ G s a)) {s : σ} (acts : List α)
    (hI : I s) (hP : P s) :
    m.Along Q s acts ∧ m.Throughout P s acts ↔ m.Along G s acts := by
  induction acts generalizing s with
  | nil => simp [hP]
  | cons a acts ih =>
    rw [throughout_cons, along_cons, along_cons]
    constructor
    · intro h
      have hgood : P (m.step s a) := h.2.2.first
      exact ⟨(hstep s a hI hP).mp ⟨h.1.1, hgood⟩, (ih (hinv s a hI) hgood).mp ⟨h.1.2, h.2.2⟩⟩
    · intro h
      obtain ⟨hright, hgood⟩ := (hstep s a hI hP).mpr h.1
      have hrest := (ih (hinv s a hI) hgood).mpr h.2
      exact ⟨⟨hright, hrest.1⟩, hP, hrest.2⟩

/-- The same for states alone. -/
theorem throughout_iff_along (m : Machine σ α) {G : σ → α → Prop} {I : σ → Prop}
    (hinv : ∀ s a, I s → I (m.step s a))
    (hstep : ∀ s a, I s → P s → (P (m.step s a) ↔ G s a)) {s : σ} (acts : List α)
    (hI : I s) (hP : P s) : m.Throughout P s acts ↔ m.Along G s acts := by
  have hright : ∀ s a, I s → P s → (True ∧ P (m.step s a) ↔ G s a) := by
    intro s a hI hP
    rw [true_and]
    exact hstep s a hI hP
  have h := along_and_throughout_iff m (Q := fun _ _ => True) hinv hright acts hI hP
  rw [and_iff_right (m.along_of_forall fun _ _ => trivial)] at h
  exact h

end Throughout

/-! ### Histories -/

/-- The machine that remembers the actions it took. -/
def recorded (m : Machine σ α) : Machine (σ × List α) α where
  step s a := (m.step s.1 a, s.2 ++ [a])

@[simp] theorem recorded_step (m : Machine σ α) (s : σ × List α) (a : α) :
    m.recorded.step s a = (m.step s.1 a, s.2 ++ [a]) := rfl

/-- Remembering changes nothing. -/
theorem recorded_run (m : Machine σ α) (s : σ × List α) (acts : List α) :
    m.recorded.run s acts = (m.run s.1 acts, s.2 ++ acts) := by
  induction acts generalizing s with
  | nil => simp
  | cons a acts ih => rw [run_cons, ih, recorded_step, run_cons, List.append_assoc]; rfl

/-- Some element of the history is `p`, and none after it is `q`. -/
def Since (p q : α → Prop) (acts : List α) : Prop :=
  ∃ before a after, acts = before ++ a :: after ∧ p a ∧ ∀ b ∈ after, ¬ q b

@[simp] theorem since_nil (p q : α → Prop) : ¬ Since p q [] := by
  rintro ⟨before, a, after, h, -⟩
  simp at h

theorem since_snoc (p q : α → Prop) (acts : List α) (a : α) :
    Since p q (acts ++ [a]) ↔ p a ∨ (¬ q a ∧ Since p q acts) := by
  constructor
  · rintro ⟨before, b, after, h, hp, hq⟩
    -- The last element is the one, or it stands after the one.
    rcases List.eq_nil_or_concat' after with rfl | ⟨after, c, rfl⟩
    · obtain ⟨rfl, rfl⟩ := List.append_singleton_inj.mp h
      exact .inl hp
    · rw [← List.cons_append, ← List.append_assoc] at h
      obtain ⟨rfl, rfl⟩ := List.append_singleton_inj.mp h
      exact .inr ⟨hq a (by simp), before, b, after, rfl, hp, fun x hx => hq x (by simp [hx])⟩
  · rintro (hp | ⟨hqa, before, b, after, rfl, hp, hq⟩)
    · exact ⟨acts, a, [], rfl, hp, by simp⟩
    · refine ⟨before, b, after ++ [a], by simp, hp, ?_⟩
      intro x hx
      rcases List.mem_append.mp hx with hx | hx
      · exact hq x hx
      · rw [List.mem_singleton.mp hx]
        exact hqa

/-- What stands after the last `p` of a history. -/
theorem after_last_unique {p : α → Prop} {before before' after after' : List α} {a a' : α}
    (h : before ++ a :: after = before' ++ a' :: after') (ha : p a) (ha' : p a')
    (hlast : ∀ b ∈ after, ¬ p b) (hlast' : ∀ b ∈ after', ¬ p b) : after = after' := by
  rcases List.append_eq_append_iff.mp h with ⟨mid, -, hmid⟩ | ⟨mid, -, hmid⟩
  · cases mid with
    | nil => exact (List.cons.inj hmid).2
    | cons c mid =>
      have hafter : after = mid ++ a' :: after' := (List.cons.inj hmid).2
      exact absurd ha' (hlast a' (by simp [hafter]))
  · cases mid with
    | nil => exact (List.cons.inj hmid).2.symm
    | cons c mid =>
      have hafter : after' = mid ++ a :: after := (List.cons.inj hmid).2
      exact absurd ha (hlast' a (by simp [hafter]))

/-- Every element stands in `P` to the history before it. -/
def Historically (P : List α → α → Prop) (acts : List α) : Prop :=
  ∀ before a after, acts = before ++ a :: after → P before a

section Historically

variable {P : List α → α → Prop}

@[simp] theorem historically_nil : Historically P [] := by
  intro before a after h
  simp at h

theorem historically_snoc {acts : List α} {a : α} :
    Historically P (acts ++ [a]) ↔ Historically P acts ∧ P acts a := by
  constructor
  · intro h
    refine ⟨?_, h acts a [] rfl⟩
    intro before b after hsplit
    exact h before b (after ++ [a]) (by simp [hsplit])
  · rintro ⟨hacts, ha⟩ before b after hsplit
    rcases List.eq_nil_or_concat' after with rfl | ⟨after, c, rfl⟩
    · obtain ⟨rfl, rfl⟩ := List.append_singleton_inj.mp hsplit
      exact ha
    · rw [← List.cons_append, ← List.append_assoc] at hsplit
      obtain ⟨rfl, rfl⟩ := List.append_singleton_inj.mp hsplit
      exact hacts before b after rfl

theorem historically_iff_get (acts : List α) :
    Historically P acts ↔ ∀ i : Fin acts.length, P (acts.take i) (acts.get i) := by
  constructor
  · intro h i
    exact h _ _ (acts.drop (i + 1)) (by simp)
  · rintro h before a after rfl
    simpa using h ⟨before.length, by simp⟩

instance Historically.instDecidable (P : List α → α → Prop) [∀ before a, Decidable (P before a)]
    (acts : List α) : Decidable (Historically P acts) :=
  decidable_of_iff _ (historically_iff_get acts).symm

end Historically

/-! ### Simulation -/

/-- Refinement mapping with an invariant: if `f` turns each step of `m` into the
    step of `abs` on the same action, then it turns each run into the run of
    `abs` on the same actions. -/
theorem run_simulates (m : Machine σ α) (abs : Machine τ α) {I : σ → Prop} (f : σ → τ)
    (hinv : ∀ s a, I s → I (m.step s a))
    (hstep : ∀ s a, I s → f (m.step s a) = abs.step (f s) a)
    {s : σ} (acts : List α) (hinit : I s) :
    f (m.run s acts) = abs.run (f s) acts := by
  induction acts generalizing s with
  | nil => rfl
  | cons a acts ih =>
    rw [run_cons, run_cons, ih (hinv s a hinit), hstep s a hinit]

/-- Simulation by a relation, as long as every step of the run is guarded. -/
theorem run_related (m : Machine σ α) (abs : Machine τ α) {G : σ → α → Prop} {R : σ → τ → Prop}
    (hstep : ∀ s t a, R s t → G s a → R (m.step s a) (abs.step t a))
    {s : σ} {t : τ} {acts : List α} (hinit : R s t) (hguard : m.Along G s acts) :
    R (m.run s acts) (abs.run t acts) := by
  induction acts generalizing s t with
  | nil => exact hinit
  | cons a acts ih => exact ih (hstep s t a hinit hguard.1) hguard.2

end Machine
