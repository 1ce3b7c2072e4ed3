import Mathlib.Data.List.Basic

/-! # Satisfiability by search

    `solve_with_dpll` of `constraints/sat.rs`.  One assignment is filled in variable by
    variable; a branch is left as soon as a clause is false under what is assigned, and the
    variable it assigned is cleared again.

    * `clauseOpen`, `isPartialConsistent`: the check of an assignment that is not complete,
    * `dpll`, `solveWithDpll`: the search and its caller,
    * `dpll_cases`: what one call does,
    * `dpll_restores`, `dpll_returns`, `dpll_sound`, `dpll_complete`: runs.
-/

namespace Canon.Algorithms.Sat

/-! ### Model -/

structure Lit where
  var : Nat
  negated : Bool
deriving DecidableEq, Repr

structure Cnf where
  numVars : Nat
  clauses : List (List Lit)
deriving DecidableEq, Repr

abbrev Assignment := List (Option Bool)

variable (cnf : Cnf) (assignment : Assignment)

/-- Nothing for a variable without a value and for one that does not exist. -/
def valueOf (var : Nat) : Option Bool := assignment[var]?.join

/-- The loop over the literals of a clause, which breaks at a literal that is true. -/
def clauseOpen (assignment : Assignment) : List Lit → Bool → Bool
  | [], hasUnassigned => hasUnassigned
  | lit :: clause, hasUnassigned =>
    match valueOf assignment lit.var with
    | some value =>
      if (if lit.negated then !value else value) then true
      else clauseOpen assignment clause hasUnassigned
    | none => clauseOpen assignment clause true

def isPartialConsistent : Bool :=
  cnf.clauses.all fun clause => clauseOpen assignment clause false

/-- What the search returns and the assignment it leaves.  Nothing when the fuel is spent. -/
def dpll (cnf : Cnf) : Nat → Assignment → Option (Bool × Assignment)
  | 0, _ => none
  | fuel + 1, assignment =>
    if !isPartialConsistent cnf assignment then some (false, assignment)
    else if assignment.all Option.isSome then some (true, assignment)
    else do
      let var ← assignment.findIdx? Option.isNone
      let (found, assignment) ← dpll cnf fuel (assignment.set var (some true))
      if found then pure (true, assignment)
      else do
        let (found, assignment) ← dpll cnf fuel (assignment.set var (some false))
        if found then pure (true, assignment)
        else pure (false, assignment.set var none)

def solveWithDpll : Option (Option (List Bool)) := do
  let (found, assignment) ← dpll cnf (cnf.numVars + 1) (List.replicate cnf.numVars none)
  pure (if found then some (assignment.map fun v => v.getD false) else none)

/-! ### What a formula says -/

def Lit.Holds (lit : Lit) (value : Nat → Bool) : Prop := value lit.var = !lit.negated

def Satisfies (value : Nat → Bool) : Prop :=
  ∀ clause ∈ cnf.clauses, ∃ lit ∈ clause, lit.Holds value

def Satisfiable : Prop := ∃ value, Satisfies cnf value

/-- The values of a model; a variable it does not have is false. -/
def valuesOf (model : List Bool) (var : Nat) : Bool := model.getD var false

def InRange : Prop := ∀ clause ∈ cnf.clauses, ∀ lit ∈ clause, lit.var < cnf.numVars

/-- The values agree with what is assigned. -/
def Extends (value : Nat → Bool) (assignment : Assignment) : Prop :=
  ∀ var b, valueOf assignment var = some b → value var = b

/-- How many variables have no value. -/
def unassigned : Nat := assignment.countP Option.isNone

/-! ### The check -/

section Check

variable {cnf : Cnf} {assignment : Assignment} {value : Nat → Bool}

theorem clauseOpen_iff (clause : List Lit) (hasUnassigned : Bool) :
    clauseOpen assignment clause hasUnassigned = true ↔
      hasUnassigned = true ∨ ∃ lit ∈ clause,
        valueOf assignment lit.var = none ∨ valueOf assignment lit.var = some (!lit.negated) := by
  induction clause generalizing hasUnassigned with
  | nil => simp [clauseOpen]
  | cons lit clause ih =>
    rw [clauseOpen, List.exists_mem_cons_iff]
    cases hvalue : valueOf assignment lit.var with
    | none =>
      rw [ih true]
      simp
    | some b =>
      show (if _ then true else clauseOpen assignment clause hasUnassigned) = true ↔ _
      have hlit : (if lit.negated then !b else b) = true ↔ b = !lit.negated := by
        cases lit.negated <;> cases b <;> decide
      by_cases htrue : b = !lit.negated
      · rw [if_pos (hlit.mpr htrue)]
        simp [htrue]
      · rw [if_neg (hlit.not.mpr htrue), ih hasUnassigned]
        simp [htrue]

theorem isPartialConsistent_iff :
    isPartialConsistent cnf assignment = true ↔ ∀ clause ∈ cnf.clauses, ∃ lit ∈ clause,
      valueOf assignment lit.var = none ∨ valueOf assignment lit.var = some (!lit.negated) := by
  rw [isPartialConsistent, List.all_eq_true]
  simp only [clauseOpen_iff, Bool.false_eq_true, false_or]

/-- A false clause stays false, whatever is assigned later. -/
theorem consistent_of_extends (hext : Extends value assignment) (hsat : Satisfies cnf value) :
    isPartialConsistent cnf assignment = true := by
  rw [isPartialConsistent_iff]
  intro clause hclause
  obtain ⟨lit, hlit, hholds⟩ := hsat clause hclause
  refine ⟨lit, hlit, ?_⟩
  cases hvalue : valueOf assignment lit.var with
  | none => exact .inl rfl
  | some b =>
    have hb : value lit.var = b := hext lit.var b hvalue
    right
    rw [← hb, show value lit.var = !lit.negated from hholds]

/-- Where every variable has a value, the check is the meaning of the formula. -/
theorem satisfies_of_consistent (hrange : InRange cnf) (hlength : assignment.length = cnf.numVars)
    (hall : assignment.all Option.isSome = true)
    (hcons : isPartialConsistent cnf assignment = true) :
    Satisfies cnf (valuesOf (assignment.map fun v => v.getD false)) := by
  intro clause hclause
  obtain ⟨lit, hlit, hopen⟩ := isPartialConsistent_iff.mp hcons clause hclause
  refine ⟨lit, hlit, ?_⟩
  have hlt : lit.var < assignment.length := by
    rw [hlength]
    exact hrange clause hclause lit hlit
  have hget : assignment[lit.var]? = some assignment[lit.var] := List.getElem?_eq_getElem hlt
  have hsome := List.all_eq_true.mp hall _ (List.getElem_mem hlt)
  obtain ⟨b, hb⟩ := Option.isSome_iff_exists.mp hsome
  have hvalue : valueOf assignment lit.var = some b := by
    rw [valueOf, hget, hb]
    rfl
  rw [hvalue] at hopen
  rcases hopen with hnone | hsame
  · cases hnone
  · show valuesOf _ lit.var = !lit.negated
    rw [← Option.some.inj hsame, valuesOf, List.getD_eq_getElem?_getD, List.getElem?_map, hget, hb]
    rfl

end Check

/-! ### One call -/

section Call

variable {cnf : Cnf} {fuel var : Nat} {assignment assignment' : Assignment} {b : Bool}

/-- A call fails or succeeds at once, or tries both values of a variable without one. -/
theorem dpll_cases (h : dpll cnf (fuel + 1) assignment = some (b, assignment')) :
    (isPartialConsistent cnf assignment = false ∧ b = false ∧ assignment' = assignment) ∨
    (isPartialConsistent cnf assignment = true ∧ assignment.all Option.isSome = true ∧
      b = true ∧ assignment' = assignment) ∨
    ∃ var, assignment[var]? = some none ∧
      ((dpll cnf fuel (assignment.set var (some true)) = some (true, assignment') ∧ b = true) ∨
      ∃ first, dpll cnf fuel (assignment.set var (some true)) = some (false, first) ∧
        ((dpll cnf fuel (first.set var (some false)) = some (true, assignment') ∧ b = true) ∨
        ∃ second, dpll cnf fuel (first.set var (some false)) = some (false, second) ∧
          b = false ∧ assignment' = second.set var none)) := by
  rw [dpll] at h
  cases hcons : isPartialConsistent cnf assignment with
  | false =>
    rw [hcons] at h
    obtain ⟨rfl, rfl⟩ := Prod.mk.inj (Option.some.inj h)
    exact .inl ⟨rfl, rfl, rfl⟩
  | true =>
    rw [hcons, Bool.not_true, if_neg Bool.false_ne_true] at h
    by_cases hall : assignment.all Option.isSome = true
    · rw [if_pos hall] at h
      obtain ⟨rfl, rfl⟩ := Prod.mk.inj (Option.some.inj h)
      exact .inr (.inl ⟨rfl, hall, rfl, rfl⟩)
    · rw [if_neg hall] at h
      obtain ⟨var, hvar, h⟩ := Option.bind_eq_some_iff.mp h
      obtain ⟨hlt, hnone, -⟩ := List.findIdx?_eq_some_iff_getElem.mp hvar
      refine .inr (.inr ⟨var, ?_, ?_⟩)
      · rw [List.getElem?_eq_getElem hlt, Option.isNone_iff_eq_none.mp hnone]
      · obtain ⟨⟨found, first⟩, hfirst, h⟩ := Option.bind_eq_some_iff.mp h
        cases found with
        | true =>
          obtain ⟨rfl, rfl⟩ := Prod.mk.inj (Option.some.inj h)
          exact .inl ⟨hfirst, rfl⟩
        | false =>
          obtain ⟨⟨found, second⟩, hsecond, h⟩ := Option.bind_eq_some_iff.mp h
          cases found with
          | true =>
            obtain ⟨rfl, rfl⟩ := Prod.mk.inj (Option.some.inj h)
            exact .inr ⟨first, hfirst, .inl ⟨hsecond, rfl⟩⟩
          | false =>
            obtain ⟨rfl, rfl⟩ := Prod.mk.inj (Option.some.inj h)
            exact .inr ⟨first, hfirst, .inr ⟨second, hsecond, rfl, rfl⟩⟩

theorem valueOf_set (hvar : assignment[var]? = some none) (k : Nat) (v : Option Bool) :
    valueOf (assignment.set var v) k = if k = var then v else valueOf assignment k := by
  obtain ⟨hlt, -⟩ := List.getElem?_eq_some_iff.mp hvar
  unfold valueOf
  by_cases hk : k = var
  · rw [if_pos hk, hk, List.getElem?_set_self hlt]
    rfl
  · rw [if_neg hk, List.getElem?_set_ne (Ne.symm hk)]

theorem extends_set {value : Nat → Bool} (hvar : assignment[var]? = some none)
    (hext : Extends value assignment) :
    Extends value (assignment.set var (some (value var))) := by
  intro k b hk
  rw [valueOf_set hvar] at hk
  by_cases heq : k = var
  · rw [if_pos heq] at hk
    rw [heq]
    exact Option.some.inj hk
  · rw [if_neg heq] at hk
    exact hext k b hk

theorem unassigned_set (hvar : assignment[var]? = some none) (b : Bool) :
    unassigned (assignment.set var (some b)) + 1 = unassigned assignment := by
  obtain ⟨hlt, hnone⟩ := List.getElem?_eq_some_iff.mp hvar
  have hpos : 0 < assignment.countP Option.isNone :=
    List.countP_pos_iff.mpr ⟨assignment[var], List.getElem_mem hlt, by rw [hnone]; rfl⟩
  unfold unassigned
  rw [List.countP_set hlt, hnone]
  show assignment.countP Option.isNone - 1 + 0 + 1 = _
  omega

theorem set_set_none (hvar : assignment[var]? = some none) (v : Option Bool) :
    (assignment.set var v).set var none = assignment := by
  obtain ⟨hlt, hnone⟩ := List.getElem?_eq_some_iff.mp hvar
  rw [List.set_set, ← hnone, List.set_getElem_self]

end Call

/-! ### Runs -/

section Run

variable {cnf : Cnf} {assignment assignment' : Assignment}

/-- A search that fails leaves the assignment as it was. -/
theorem dpll_restores (fuel : Nat) :
    ∀ {assignment assignment' : Assignment},
      dpll cnf fuel assignment = some (false, assignment') → assignment' = assignment := by
  induction fuel with
  | zero =>
    intro assignment assignment' h
    cases h
  | succ fuel ih =>
    intro assignment assignment' h
    rcases dpll_cases h with ⟨-, -, heq⟩ | ⟨-, -, hb, -⟩ | ⟨var, hvar, hbranch⟩
    · exact heq
    · cases hb
    · rcases hbranch with ⟨-, hb⟩ | ⟨first, hfirst, ⟨-, hb⟩ | ⟨second, hsecond, -, heq⟩⟩
      · cases hb
      · cases hb
      · have hfirst' := ih hfirst
        have hsecond' := ih hsecond
        rw [heq, hsecond', hfirst', List.set_set, set_set_none hvar]

theorem dpll_returns (fuel : Nat) :
    ∀ {assignment : Assignment}, unassigned assignment < fuel →
      ∃ r, dpll cnf fuel assignment = some r := by
  induction fuel with
  | zero =>
    intro assignment hfuel
    omega
  | succ fuel ih =>
    intro assignment hfuel
    rw [dpll]
    split
    · exact ⟨_, rfl⟩
    · split
      · exact ⟨_, rfl⟩
      · next hall =>
        -- Some variable has no value, and each of the two calls is about one variable fewer.
        obtain ⟨v, hmem, hnone⟩ : ∃ v ∈ assignment, v.isNone = true := by
          simpa using hall
        obtain ⟨var, hfind⟩ := Option.isSome_iff_exists.mp
          (List.findIdx?_isSome.trans (List.any_eq_true.mpr ⟨v, hmem, hnone⟩))
        obtain ⟨hlt, hnone, -⟩ := List.findIdx?_eq_some_iff_getElem.mp hfind
        have hvar : assignment[var]? = some none := by
          rw [List.getElem?_eq_getElem hlt, Option.isNone_iff_eq_none.mp hnone]
        have hfewer := unassigned_set hvar
        obtain ⟨⟨found, first⟩, hfirst⟩ := @ih (assignment.set var (some true))
          (by have := hfewer true; omega)
        rw [hfind, Option.bind_eq_bind, Option.bind_some, hfirst, Option.bind_eq_bind,
          Option.bind_some]
        cases found with
        | true => exact ⟨_, rfl⟩
        | false =>
          obtain ⟨⟨found, second⟩, hsecond⟩ := @ih (assignment.set var (some false))
            (by have := hfewer false; omega)
          rw [dpll_restores _ hfirst]
          simp only [Bool.false_eq_true, if_false]
          rw [List.set_set, hsecond, Option.bind_some]
          cases found with
          | true => exact ⟨_, rfl⟩
          | false => exact ⟨_, rfl⟩

theorem dpll_sound (fuel : Nat) :
    ∀ {assignment assignment' : Assignment},
      dpll cnf fuel assignment = some (true, assignment') →
        assignment'.length = assignment.length ∧ assignment'.all Option.isSome = true ∧
          isPartialConsistent cnf assignment' = true := by
  induction fuel with
  | zero =>
    intro assignment assignment' h
    cases h
  | succ fuel ih =>
    intro assignment assignment' h
    rcases dpll_cases h with ⟨-, hb, -⟩ | ⟨hcons, hall, -, heq⟩ | ⟨var, hvar, hbranch⟩
    · cases hb
    · rw [heq]
      exact ⟨rfl, hall, hcons⟩
    · rcases hbranch with ⟨hfirst, -⟩ | ⟨first, hfirst, ⟨hsecond, -⟩ | ⟨second, -, hb, -⟩⟩
      · have hspec := ih hfirst
        rw [List.length_set] at hspec
        exact hspec
      · have hspec := ih hsecond
        rw [List.length_set, dpll_restores _ hfirst, List.length_set] at hspec
        exact hspec
      · cases hb

/-- A search that fails has no model that agrees with the assignment. -/
theorem dpll_complete {value : Nat → Bool} (hsat : Satisfies cnf value) (fuel : Nat) :
    ∀ {assignment assignment' : Assignment}, Extends value assignment →
      dpll cnf fuel assignment ≠ some (false, assignment') := by
  induction fuel with
  | zero =>
    intro assignment assignment' _ h
    cases h
  | succ fuel ih =>
    intro assignment assignment' hext h
    rcases dpll_cases h with ⟨hcons, -, -⟩ | ⟨-, -, hb, -⟩ | ⟨var, hvar, hbranch⟩
    · rw [consistent_of_extends hext hsat] at hcons
      cases hcons
    · cases hb
    · rcases hbranch with ⟨-, hb⟩ | ⟨first, hfirst, ⟨-, hb⟩ | ⟨second, hsecond, -, -⟩⟩
      · cases hb
      · cases hb
      · have hvalue := extends_set hvar hext
        rw [dpll_restores _ hfirst, List.set_set] at hsecond
        cases hv : value var with
        | true =>
          rw [hv] at hvalue
          exact ih hvalue hfirst
        | false =>
          rw [hv] at hvalue
          exact ih hvalue hsecond

end Run

theorem extends_replicate (value : Nat → Bool) (n : Nat) :
    Extends value (List.replicate n none) := by
  intro var b h
  rw [valueOf, List.getElem?_replicate] at h
  split at h
  · cases h
  · cases h

/-- For a formula over its variables the search returns, with a model where there is one and
    without one otherwise; and whatever assignment a call starts from, it ends, and has not
    changed the assignment when it fails. -/
theorem solve_with_dpll_correct (cnf : Cnf) (hrange : InRange cnf) :
    (∃ r, solveWithDpll cnf = some r ∧
      (∀ model, r = some model →
        model.length = cnf.numVars ∧ Satisfies cnf (valuesOf model)) ∧
      ((∃ model, r = some model) ↔ Satisfiable cnf)) ∧
    ∀ assignment, (∃ r, dpll cnf (unassigned assignment + 1) assignment = some r) ∧
      ∀ fuel assignment', dpll cnf fuel assignment = some (false, assignment') →
        assignment' = assignment := by
  constructor
  · have hfuel : unassigned (List.replicate cnf.numVars none) < cnf.numVars + 1 := by
      unfold unassigned
      rw [List.countP_replicate]
      split
      · omega
      · omega
    obtain ⟨⟨found, assignment⟩, hrun⟩ := dpll_returns (cnf.numVars + 1) hfuel
    refine ⟨if found then some (assignment.map fun v => v.getD false) else none, ?_, ?_⟩
    · rw [solveWithDpll, hrun]
      rfl
    · cases found with
      | true =>
        obtain ⟨hlength, hall, hcons⟩ := dpll_sound _ hrun
        rw [List.length_replicate] at hlength
        have hsat := satisfies_of_consistent hrange hlength hall hcons
        rw [if_pos rfl]
        constructor
        · intro model hmodel
          rw [← Option.some.inj hmodel, List.length_map]
          exact ⟨hlength, hsat⟩
        · exact ⟨fun _ => ⟨_, hsat⟩, fun _ => ⟨_, rfl⟩⟩
      | false =>
        rw [if_neg Bool.false_ne_true]
        constructor
        · intro model hmodel
          cases hmodel
        · constructor
          · intro ⟨model, hmodel⟩
            cases hmodel
          · intro ⟨value, hsat⟩
            exact absurd hrun (dpll_complete hsat _ (extends_replicate value _))
  · intro assignment
    exact ⟨dpll_returns _ (Nat.lt_succ_self _), fun fuel assignment' h => dpll_restores fuel h⟩

/-- Two clauses that leave only one model, found in the second branch. -/
def exampleCnf : Cnf := ⟨2, [[⟨0, true⟩], [⟨0, false⟩, ⟨1, false⟩]]⟩

theorem solve_with_dpll_correct_example :
    ∃ r, solveWithDpll exampleCnf = some r ∧ ∀ model, r = some model → model.length = 2 := by
  have hrange : InRange exampleCnf := by
    show ∀ clause ∈ exampleCnf.clauses, ∀ lit ∈ clause, lit.var < exampleCnf.numVars
    decide
  obtain ⟨r, hr, hmodel, -⟩ := (solve_with_dpll_correct exampleCnf hrange).1
  exact ⟨r, hr, fun model h => (hmodel model h).1⟩

end Canon.Algorithms.Sat
