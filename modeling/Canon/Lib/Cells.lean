import Canon.Lib.Maps

/-! # Tables that are changed entry by entry

    An event may set an entry of a table, take it out, or put something in when there is
    nothing.  Replaying the same events on two tables gives the same entry as soon as one
    event has set it or taken it out; this module says exactly when it does, against the
    empty table.
-/

/-- What an event does to one entry. -/
inductive CellOp (ν : Type) where
  | keep
  /-- The entry is set, or taken out. -/
  | set (v : Option ν)
  /-- Only where there is nothing. -/
  | orInsert (v : ν)

namespace CellOp

variable {ν : Type}

def apply : CellOp ν → Option ν → Option ν
  | keep, x => x
  | set v, _ => v
  | orInsert v, x => x.or (some v)

variable (ops : List (CellOp ν)) (x : Option ν)

def run : Option ν := ops.foldl (fun x op => op.apply x) x

def overwrites : CellOp ν → Bool
  | set _ => true
  | _ => false

def inserted? : CellOp ν → Option ν
  | orInsert v => some v
  | _ => none

@[simp] theorem run_nil : run [] x = x := rfl

@[simp] theorem run_cons (op : CellOp ν) (ops : List (CellOp ν)) (x : Option ν) :
    run (op :: ops) x = run ops (op.apply x) := rfl

/-- What was there does not matter once it is overwritten. -/
theorem run_of_overwritten {ops : List (CellOp ν)} (h : ∃ op ∈ ops, op.overwrites = true)
    (x y : Option ν) : run ops x = run ops y := by
  induction ops generalizing x y with
  | nil => simp at h
  | cons op ops ih =>
    rw [run_cons, run_cons]
    cases op with
    | set v => rfl
    | keep | orInsert v =>
      apply ih
      simpa [overwrites] using h

/-- What was there stays, and otherwise the first insertion counts. -/
theorem run_of_kept {ops : List (CellOp ν)} (h : ∀ op ∈ ops, op.overwrites = false)
    (x : Option ν) : run ops x = x.or (ops.findSome? inserted?) := by
  induction ops generalizing x with
  | nil => simp
  | cons op ops ih =>
    have hrest : ∀ op ∈ ops, op.overwrites = false := fun op hop => h op (by simp [hop])
    rw [run_cons, ih hrest]
    cases op with
    | keep => rfl
    | set v =>
      have hfalse := h (.set v) (by simp)
      cases hfalse
    | orInsert v =>
      show (x.or (some v)).or _ = x.or (some v)
      rw [Option.or_assoc, Option.some_or]

/-- The entry ends up as it would without `x`. -/
def Settles : Prop :=
  x = none ∨ (∃ op ∈ ops, op.overwrites = true) ∨ ops.findSome? inserted? = x

theorem run_eq_run_none_iff :
    run ops x = run ops none ↔ Settles ops x := by
  unfold Settles
  by_cases h : ∃ op ∈ ops, op.overwrites = true
  · exact iff_of_true (run_of_overwritten h x none) (.inr (.inl h))
  · have hkept : ∀ op ∈ ops, op.overwrites = false := by
      intro op hop
      cases hover : op.overwrites with
      | false => rfl
      | true => exact absurd ⟨op, hop, hover⟩ h
    rw [run_of_kept hkept, run_of_kept hkept, Option.none_or]
    cases x with
    | none => simp
    | some v =>
      rw [Option.some_or, eq_comm]
      simp [h]

end CellOp

/-- A table that is part of a state changes entry by entry along a list of events. -/
theorem foldl_cell {σ ε κ ν : Type} {step : σ → ε → σ} {table : σ → FMap κ ν}
    {op : ε → κ → CellOp ν} (h : ∀ s e k, table (step s e) k = (op e k).apply (table s k))
    (s : σ) (es : List ε) (k : κ) :
    table (es.foldl step s) k = CellOp.run (es.map (op · k)) (table s k) := by
  induction es generalizing s with
  | nil => rfl
  | cons e es ih => rw [List.foldl_cons, ih, h, List.map_cons, CellOp.run_cons]

/-- Two states after the same events have the same table, if the second started with an
    empty one, exactly when every entry of the first is settled. -/
theorem foldl_table_eq_iff {σ ε κ ν : Type} {step : σ → ε → σ} {table : σ → FMap κ ν}
    {op : ε → κ → CellOp ν} (h : ∀ s e k, table (step s e) k = (op e k).apply (table s k))
    {s s' : σ} (hempty : ∀ k, table s' k = none) (es : List ε) :
    table (es.foldl step s) = table (es.foldl step s') ↔
      ∀ k, CellOp.Settles (es.map (op · k)) (table s k) := by
  rw [funext_iff]
  apply forall_congr'
  intro k
  rw [foldl_cell h, foldl_cell h, hempty, CellOp.run_eq_run_none_iff]
