import Mathlib.Data.List.Basic

/-! # Delta debugging

    `ddmin` of `optimization/delta_debug.rs`: a failing list is cut into `n` chunks, and the
    first chunk whose removal keeps the failure is removed; when none does, the chunks become
    smaller, until each of them is one element.

    * `chunkLoop`: one pass over the chunks,
    * `ddminLoop`, `ddmin`: the passes,
    * `chunkLoop_returns`, `chunkLoop_some`, `chunkLoop_single`: what a pass finds,
    * `ddminLoop_spec`: the run, by a measure that every pass lowers.
-/

namespace Canon.Algorithms.DeltaDebug

variable {α : Type}

/-! ### Model -/

def divCeil (a b : Nat) : Nat := if a % b = 0 then a / b else a / b + 1

/-- The chunks from position `i` on: the first list without a chunk that still fails.  Nothing
    when the fuel is spent. -/
def chunkLoop (fails : List α → Bool) (current : List α) (chunk : Nat) :
    Nat → Nat → Option (Option (List α))
  | 0, _ => none
  | fuel + 1, i =>
    if i < current.length then
      let stop := min (i + chunk) current.length
      let candidate := current.take i ++ current.drop stop
      if fails candidate then some (some candidate)
      else chunkLoop fails current chunk fuel stop
    else some none

def ddminLoop (fails : List α → Bool) : Nat → List α → Nat → Option (List α)
  | 0, _, _ => none
  | fuel + 1, current, n =>
    if 2 ≤ current.length then do
      let chunk := divCeil current.length n
      match ← chunkLoop fails current chunk (current.length + 1) 0 with
      | some candidate => ddminLoop fails fuel candidate (max 2 (n - 1))
      | none =>
        if current.length ≤ n then pure current
        else ddminLoop fails fuel current (min current.length (n * 2))
    else some current

/-- What every pass lowers: a removal the length, and another pass the distance to chunks of
    one element. -/
def measure (length n : Nat) : Nat := length * (length + 1) + (length - n)

def ddmin (items : List α) (fails : List α → Bool) : Option (List α) :=
  if items.isEmpty || !fails items then some []
  else ddminLoop fails (measure items.length 2 + 1) items 2

/-! ### One pass -/

theorem divCeil_pos {a b : Nat} (ha : 0 < a) (hb : 0 < b) : 0 < divCeil a b := by
  unfold divCeil
  split
  · next hmod => exact Nat.div_pos (Nat.le_of_dvd ha (Nat.dvd_of_mod_eq_zero hmod)) hb
  · exact Nat.succ_pos _

/-- With as many chunks as elements a chunk is one element. -/
theorem divCeil_eq_one {a b : Nat} (ha : 0 < a) (hab : a ≤ b) : divCeil a b = 1 := by
  unfold divCeil
  by_cases heq : a = b
  · rw [heq, Nat.mod_self, if_pos rfl, Nat.div_self (by omega)]
  · have hlt : a < b := by omega
    rw [Nat.mod_eq_of_lt hlt, if_neg (by omega), Nat.div_eq_of_lt hlt]

section Pass

variable {fails : List α → Bool} {current : List α} {chunk : Nat}

theorem chunkLoop_returns (hchunk : 0 < chunk) (fuel : Nat) :
    ∀ {i : Nat}, current.length - i < fuel →
      ∃ r, chunkLoop fails current chunk fuel i = some r := by
  induction fuel with
  | zero =>
    intro i hfuel
    omega
  | succ fuel ih =>
    intro i hfuel
    rw [chunkLoop]
    by_cases hi : i < current.length
    · rw [if_pos hi]
      dsimp only
      split
      · exact ⟨_, rfl⟩
      · apply ih
        omega
    · rw [if_neg hi]
      exact ⟨_, rfl⟩

/-- What a pass finds is a shorter list that fails. -/
theorem chunkLoop_some {candidate : List α} (hchunk : 0 < chunk) (fuel : Nat) :
    ∀ {i : Nat}, chunkLoop fails current chunk fuel i = some (some candidate) →
      candidate.Sublist current ∧ candidate.length < current.length ∧
        fails candidate = true := by
  induction fuel with
  | zero =>
    intro i h
    cases h
  | succ fuel ih =>
    intro i h
    rw [chunkLoop] at h
    by_cases hi : i < current.length
    · rw [if_pos hi] at h
      have hstop : i ≤ min (i + chunk) current.length := by omega
      dsimp only at h
      split at h
      · next hfails =>
        rw [← Option.some.inj (Option.some.inj h)]
        refine ⟨?_, ?_, hfails⟩
        · have hsub := (List.Sublist.refl (current.take i)).append
            (List.drop_sublist_drop_left current hstop)
          rwa [List.take_append_drop] at hsub
        · rw [List.length_append, List.length_take, List.length_drop]
          omega
      · exact ih h
    · rw [if_neg hi] at h
      cases h

/-- A pass with chunks of one element that finds nothing has tried every element. -/
theorem chunkLoop_single (fuel : Nat) :
    ∀ {i : Nat}, chunkLoop fails current 1 fuel i = some none →
      ∀ k, i ≤ k → k < current.length → fails (current.eraseIdx k) = false := by
  induction fuel with
  | zero =>
    intro i h
    cases h
  | succ fuel ih =>
    intro i h k hik hk
    have hi : i < current.length := by omega
    have hstop : min (i + 1) current.length = i + 1 := by omega
    rw [chunkLoop, if_pos hi, hstop] at h
    dsimp only at h
    split at h
    · cases h
    · next hfails =>
      by_cases heq : k = i
      · rw [heq, List.eraseIdx_eq_take_drop_succ]
        exact Bool.eq_false_iff.mpr hfails
      · exact ih h k (by omega) hk

end Pass

/-! ### The passes -/

theorem measure_removed {length length' : Nat} (hlt : length' < length) (n n' : Nat) :
    measure length' n' < measure length n := by
  obtain ⟨d, rfl⟩ := Nat.exists_eq_add_of_lt hlt
  unfold measure
  have hmul : length' * (length' + 1) + 2 * (length' + 1) ≤
      (length' + d + 1) * (length' + d + 1 + 1) := by
    rw [← Nat.add_mul, Nat.mul_comm]
    exact Nat.mul_le_mul (by omega) (by omega)
  omega

theorem measure_finer {length n n' : Nat} (hn : n < n') (hlt : n < length) :
    measure length n' < measure length n := by
  unfold measure
  omega

theorem ddminLoop_spec {fails : List α → Bool} (hnil : fails [] = false) (fuel : Nat) :
    ∀ {current : List α} {n : Nat}, fails current = true → 2 ≤ n →
      measure current.length n < fuel →
      ∃ r, ddminLoop fails fuel current n = some r ∧ r.Sublist current ∧ fails r = true ∧
        ∀ k < r.length, fails (r.eraseIdx k) = false := by
  induction fuel with
  | zero =>
    intro current n _ _ hfuel
    omega
  | succ fuel ih =>
    intro current n hfails hn hfuel
    rw [ddminLoop]
    by_cases hlength : 2 ≤ current.length
    · rw [if_pos hlength]
      have hchunk : 0 < divCeil current.length n := divCeil_pos (by omega) (by omega)
      obtain ⟨r, hpass⟩ : ∃ r, chunkLoop fails current (divCeil current.length n)
          (current.length + 1) 0 = some r := chunkLoop_returns hchunk _ (by omega)
      simp only [hpass, Option.bind_eq_bind, Option.bind_some]
      cases r with
      | some candidate =>
        obtain ⟨hsub, hshorter, hstill⟩ := chunkLoop_some hchunk _ hpass
        have hless := measure_removed hshorter n (max 2 (n - 1))
        obtain ⟨r, hrun, hr, hspec⟩ := ih hstill (show 2 ≤ max 2 (n - 1) by omega) (by omega)
        exact ⟨r, hrun, hr.trans hsub, hspec⟩
      | none =>
        by_cases hfine : current.length ≤ n
        -- The pass that found nothing removed one element at a time.
        · simp only [if_pos hfine]
          rw [divCeil_eq_one (by omega) hfine] at hpass
          refine ⟨current, rfl, List.Sublist.refl _, hfails, ?_⟩
          intro k hk
          exact chunkLoop_single _ hpass k (Nat.zero_le k) hk
        · simp only [if_neg hfine]
          have hless : measure current.length (min current.length (n * 2)) <
              measure current.length n := measure_finer (by omega) (by omega)
          exact ih hfails (by omega) (by omega)
    · rw [if_neg hlength]
      refine ⟨current, rfl, List.Sublist.refl _, hfails, ?_⟩
      intro k hk
      have hone : current.length = 1 := by omega
      obtain ⟨x, rfl⟩ := List.length_eq_one_iff.mp hone
      have hzero : k = 0 := by omega
      rw [hzero]
      exact hnil

/-- From a list that fails, with a predicate that the empty list does not, the loop ends with
    a part of the list, in its order, that fails and no longer fails without any one of its
    elements. -/
theorem ddmin_minimal (items : List α) (fails : List α → Bool) (hnil : fails [] = false)
    (hitems : fails items = true) :
    ∃ r, ddmin items fails = some r ∧ r.Sublist items ∧ fails r = true ∧
      ∀ k < r.length, fails (r.eraseIdx k) = false := by
  have hne : items.isEmpty = false := by
    cases items with
    | nil =>
      rw [hnil] at hitems
      cases hitems
    | cons x items => rfl
  rw [ddmin, hne, hitems, Bool.false_or, Bool.not_true, if_neg Bool.false_ne_true]
  exact ddminLoop_spec hnil _ hitems (Nat.le_refl 2) (Nat.lt_succ_self _)

/-- A failure that needs both `2` and `5`. -/
theorem ddmin_minimal_pair :
    ∃ r, ddmin [1, 2, 3, 4, 5] (fun l => l.contains 2 && l.contains 5) = some r ∧
      r.Sublist [1, 2, 3, 4, 5] ∧ (r.contains 2 && r.contains 5) = true ∧
      ∀ k < r.length, ((r.eraseIdx k).contains 2 && (r.eraseIdx k).contains 5) = false :=
  ddmin_minimal [1, 2, 3, 4, 5] (fun l => l.contains 2 && l.contains 5) (by decide) (by decide)

end Canon.Algorithms.DeltaDebug
