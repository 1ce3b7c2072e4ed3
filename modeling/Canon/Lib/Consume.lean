import Mathlib.Algebra.GroupWithZero.Nat
import Mathlib.Algebra.BigOperators.Group.List.Basic

/-! # Loops that take entries from the front of a slice

    A parser reads a slice step by step: a step looks at what is left and reports how
    many entries it took, and the loop goes on behind them.  The slice expression
    checks its bound, so a step that reports too many stops the program, and a step
    that reports none never ends.

    * `Consume.loop`: the loop; `none` stands for both,
    * `Consume.Progress`: what a step has to promise,
    * `Consume.sum_loop`: then the reported numbers add up to what was there.
-/

namespace Consume

variable {α β ε : Type}

/-- A step sees what is left and the number of the first line of it. -/
abbrev Step (α β ε : Type) := List α → Nat → Option (Except ε (β × Nat))

/-- The loop, with what each step found and how much it took. -/
def loop (step : Step α β ε) (stop : List α → Bool) :
    (fuel : Nat) → List α → (n : Nat) → Option (Except ε (List (β × Nat)))
  | _, [], _ => some (.ok [])
  | 0, _ :: _, _ => none
  | fuel + 1, a :: as, n =>
    match step (a :: as) n with
    | none => none
    | some (.error e) => some (.error e)
    | some (.ok (found, used)) =>
      -- The slice `[used..]`.
      if used ≤ (a :: as).length then
        let remaining := (a :: as).drop used
        if stop remaining then some (.ok [(found, used)])
        else
          (loop step stop fuel remaining (n + used)).map fun more =>
            more.map ((found, used) :: ·)
      else none

/-- A step that reads from a slice that is not empty ends, takes at least one entry and
    not more than there are. -/
structure Progress (step : Step α β ε) : Prop where
  ends : ∀ (lines : List α) (n : Nat), lines ≠ [] → ∃ result, step lines n = some result
  pos : ∀ {lines : List α} {n : Nat} {found : β} {used : Nat}, lines ≠ [] →
    step lines n = some (.ok (found, used)) → 1 ≤ used
  le : ∀ {lines : List α} {n : Nat} {found : β} {used : Nat}, lines ≠ [] →
    step lines n = some (.ok (found, used)) → used ≤ lines.length

variable {step : Step α β ε} {stop : List α → Bool}

@[simp] theorem loop_nil (fuel n : Nat) : loop step stop fuel [] n = some (.ok []) := by
  cases fuel <;> rfl

theorem loop_error {lines : List α} {n fuel : Nat} {e : ε} (hne : lines ≠ [])
    (h : step lines n = some (.error e)) :
    loop step stop (fuel + 1) lines n = some (.error e) := by
  cases lines with
  | nil => exact absurd rfl hne
  | cons a as => simp [loop, h]

theorem Progress.loop_ok (hstep : Progress step) {lines : List α} {n fuel used : Nat} {found : β}
    (hne : lines ≠ []) (h : step lines n = some (.ok (found, used))) :
    loop step stop (fuel + 1) lines n =
      if stop (lines.drop used) then some (.ok [(found, used)])
      else (loop step stop fuel (lines.drop used) (n + used)).map fun more =>
        more.map ((found, used) :: ·) := by
  have hle := hstep.le hne h
  cases lines with
  | nil => exact absurd rfl hne
  | cons a as =>
    rw [loop, h]
    simp only [if_pos hle]

/-- Without a stop the loop takes everything. -/
theorem sum_loop (hstep : Progress step) {fuel : Nat} {lines : List α} {n : Nat}
    {found : List (β × Nat)}
    (h : loop step (fun _ => false) fuel lines n = some (.ok found)) :
    (found.map Prod.snd).sum = lines.length := by
  induction fuel generalizing lines n found with
  | zero =>
    cases lines with
    | nil =>
      rw [loop_nil] at h
      cases h
      rfl
    | cons a as => simp [loop] at h
  | succ fuel ih =>
    by_cases hne : lines = []
    · rw [hne, loop_nil] at h
      cases h
      rw [hne]
      rfl
    · obtain ⟨result, hresult⟩ := hstep.ends lines n hne
      match result with
      | .error e =>
        rw [loop_error hne hresult] at h
        cases h
      | .ok (first, used) =>
        have hle := hstep.le hne hresult
        rw [hstep.loop_ok hne hresult] at h
        simp only [Bool.false_eq_true, if_false, Option.map_eq_some_iff] at h
        obtain ⟨more, hmore, hfound⟩ := h
        match more with
        | .error e => cases hfound
        | .ok rest =>
          cases hfound
          have hrest := ih hmore
          rw [List.length_drop] at hrest
          show used + (rest.map Prod.snd).sum = lines.length
          omega

end Consume
