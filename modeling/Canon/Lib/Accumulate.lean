import Mathlib.Data.List.Basic

/-! # Actions on a state that only grows

    An action changes a state and answers or fails; what it changed before it failed stays.
    Where the state only grows, an action settles if, once it was done, it does nothing in
    every later state and answers the same: tables that give out numbers on first sight are
    used in this way.

    * `Action` with `pure` and `bind`,
    * `Growth`: an order on the states; `Extends`, `Settles` with their rules for `bind`,
    * `Enlarges`: actions that enlarge a measure each time they are done.
-/

namespace Accumulate

/-- A change of the state with an answer. -/
def Action (σ ε α : Type) : Type := σ → σ × Except ε α

namespace Action

variable {σ ε α β : Type}

protected def pure (x : α) : Action σ ε α := fun s => (s, .ok x)

def fail (e : ε) : Action σ ε α := fun s => (s, .error e)

protected def bind (a : Action σ ε α) (f : α → Action σ ε β) : Action σ ε β := fun s =>
  match a s with
  | (s, .ok x) => f x s
  | (s, .error e) => (s, .error e)

instance : Monad (Action σ ε) where
  pure := Action.pure
  bind := Action.bind

theorem bind_of_ok {a : Action σ ε α} {f : α → Action σ ε β} {s : σ} {x : α}
    (h : (a s).2 = .ok x) : (a >>= f) s = f x (a s).1 := by
  show Action.bind a f s = _
  rw [Action.bind]
  match hs : a s with
  | (s', .ok y) =>
    rw [hs] at h
    cases h
    rfl
  | (s', .error e) =>
    rw [hs] at h
    cases h

theorem bind_of_error {a : Action σ ε α} {f : α → Action σ ε β} {s : σ} {e : ε}
    (h : (a s).2 = .error e) : (a >>= f) s = ((a s).1, .error e) := by
  show Action.bind a f s = _
  rw [Action.bind]
  match hs : a s with
  | (s', .ok y) =>
    rw [hs] at h
    cases h
  | (s', .error e') =>
    rw [hs] at h
    cases h
    rfl

end Action

/-- An order in which states come one after the other. -/
structure Growth (σ : Type) where
  le : σ → σ → Prop
  refl : ∀ s, le s s
  trans : ∀ {s t u}, le s t → le t u → le s u

section Rules

variable {σ ε α β : Type} (g : Growth σ)

def Extends (a : Action σ ε α) : Prop := ∀ s, g.le s (a s).1

/-- Once done, nothing is left to do. -/
def Settles (a : Action σ ε α) : Prop := ∀ s t, g.le (a s).1 t → a t = (t, (a s).2)

/-- The measure is larger each time. -/
def Enlarges (m : σ → Nat) (a : Action σ ε α) : Prop := ∀ s, m s < m (a s).1

/-- The action answers in every state or fails in every state. -/
def Answers (ok : Bool) (a : Action σ ε α) : Prop :=
  ∀ s, if ok then ∃ x, (a s).2 = .ok x else ∃ e, (a s).2 = .error e

/-- The action only grows the state, and answers in every state or in none. -/
structure Behaves (ok : Bool) (a : Action σ ε α) : Prop where
  grows : Extends g a
  answers : Answers ok a

variable {g} {a : Action σ ε α} {f : α → Action σ ε β}

theorem extends_pure (x : α) : Extends g (pure x : Action σ ε α) := fun s => g.refl s

theorem settles_pure (x : α) : Settles g (pure x : Action σ ε α) := fun _ _ _ => rfl

theorem extends_fail (e : ε) : Extends g (Action.fail e : Action σ ε α) := fun s => g.refl s

theorem settles_fail (e : ε) : Settles g (Action.fail e : Action σ ε α) := fun _ _ _ => rfl

theorem extends_bind (ha : Extends g a) (hf : ∀ x, Extends g (f x)) : Extends g (a >>= f) := by
  intro s
  cases h : (a s).2 with
  | ok x =>
    rw [Action.bind_of_ok h]
    exact g.trans (ha s) (hf x _)
  | error e =>
    rw [Action.bind_of_error h]
    exact ha s

theorem settles_bind (ha : Settles g a) (hf : ∀ x, Settles g (f x))
    (hext : ∀ x, Extends g (f x)) : Settles g (a >>= f) := by
  intro s t hst
  cases h : (a s).2 with
  | ok x =>
    rw [Action.bind_of_ok h] at hst ⊢
    have hdone := ha s t (g.trans (hext x _) hst)
    have hanswer : (a t).2 = .ok x := by rw [hdone, h]
    rw [Action.bind_of_ok hanswer, hdone]
    exact hf x _ t hst
  | error e =>
    rw [Action.bind_of_error h] at hst ⊢
    have hdone := ha s t hst
    have hanswer : (a t).2 = .error e := by rw [hdone, h]
    rw [Action.bind_of_error hanswer, hdone]

/-- What comes behind a failure does not matter. -/
theorem settles_bind_of_fails (ha : Settles g a) (hfail : Answers false a) :
    Settles g (a >>= f) := by
  intro s t hst
  obtain ⟨e, he⟩ := hfail s
  rw [Action.bind_of_error he] at hst ⊢
  have hdone := ha s t hst
  have hanswer : (a t).2 = .error e := by rw [hdone, he]
  rw [Action.bind_of_error hanswer, hdone]

theorem enlarges_bind_left {m : σ → Nat} (hm : ∀ s t, g.le s t → m s ≤ m t)
    (ha : Enlarges m a) (hf : ∀ x, Extends g (f x)) : Enlarges m (a >>= f) := by
  intro s
  have hstep := ha s
  cases h : (a s).2 with
  | ok x =>
    rw [Action.bind_of_ok h]
    exact Nat.lt_of_lt_of_le hstep (hm _ _ (hf x _))
  | error e =>
    rw [Action.bind_of_error h]
    exact hstep

theorem enlarges_bind_right {m : σ → Nat} (hm : ∀ s t, g.le s t → m s ≤ m t)
    (ha : Extends g a) (hok : Answers true a) (hf : ∀ x, Enlarges m (f x)) :
    Enlarges m (a >>= f) := by
  intro s
  obtain ⟨x, hx⟩ := hok s
  rw [Action.bind_of_ok hx]
  exact Nat.lt_of_le_of_lt (hm _ _ (ha s)) (hf x _)

theorem behaves_pure (x : α) : Behaves g true (pure x : Action σ ε α) :=
  ⟨extends_pure x, fun _ => ⟨x, rfl⟩⟩

/-- A chain answers when both parts do. -/
theorem behaves_bind {ok ok' : Bool} (ha : Behaves g ok a) (hf : ∀ x, Behaves g ok' (f x)) :
    Behaves g (ok && ok') (a >>= f) where
  grows := extends_bind ha.grows fun x => (hf x).grows
  answers := by
    intro s
    cases ok with
    | false =>
      obtain ⟨e, he⟩ := ha.answers s
      exact ⟨e, by rw [Action.bind_of_error he]⟩
    | true =>
      obtain ⟨x, hx⟩ := ha.answers s
      rw [Action.bind_of_ok hx]
      exact (hf x).answers _

theorem behaves_bind_of_answers {ok : Bool} (ha : Behaves g ok a)
    (hf : ∀ x, Behaves g true (f x)) : Behaves g ok (a >>= f) := by
  have h := behaves_bind ha hf
  rwa [Bool.and_true] at h

theorem behaves_of_answers_bind {ok : Bool} (ha : Behaves g true a)
    (hf : ∀ x, Behaves g ok (f x)) : Behaves g ok (a >>= f) := behaves_bind ha hf

end Rules

end Accumulate
