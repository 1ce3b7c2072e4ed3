import Canon.Algorithms.DisjointSets

/-! # Unification of equalities

    `constraints/unification.rs` and `parsing_compilation/type_unification.rs` on the CPU: the
    constraints are checked, united and labelled with the roots, which are cut to 32 bits.

    * `solveConstraintsCpu`, `unifyTypesCpu`: the functions of the source,
    * `Solves`: the labels tell the classes apart and are members of them,
    * `solve_ok`, `not_meets_of_large`: the result with and without the cut.
-/

namespace Canon.Algorithms.Unification

open Canon.Lib.Forest Canon.Algorithms.DisjointSets

/-! ### Model -/

structure EqualityConstraint where
  left : UInt32
  right : UInt32
deriving DecidableEq, Repr

def OutOfRange (varCount : Nat) (c : EqualityConstraint) : Prop :=
  varCount ≤ c.left.toNat ∨ varCount ≤ c.right.toNat

instance (varCount : Nat) (c : EqualityConstraint) : Decidable (OutOfRange varCount c) :=
  inferInstanceAs (Decidable (_ ∨ _))

def constraintError (varCount i : Nat) (c : EqualityConstraint) : String :=
  "constraint " ++ toString i ++ " out of range: (" ++ toString c.left ++ ", " ++
    toString c.right ++ ") with var_count=" ++ toString varCount

/-- The check of the constraints from the `i`-th on. -/
def validateConstraints (varCount : Nat) : Nat → List EqualityConstraint → Except String Unit
  | _, [] => .ok ()
  | i, c :: constraints =>
    if OutOfRange varCount c then .error (constraintError varCount i c)
    else validateConstraints varCount (i + 1) constraints

def unionOf (c : EqualityConstraint) : Op := .union c.left.toNat c.right.toNat

/-- Nothing where the code panics. -/
def solveConstraintsCpu (varCount : Nat) (constraints : List EqualityConstraint) :
    Option (Except String (List UInt32)) :=
  match validateConstraints varCount 0 constraints with
  | .error message => some (.error message)
  | .ok () => do
    let uf ← run (new varCount) (constraints.map unionOf)
    let (roots, _) ← labels uf
    pure (.ok (roots.map UInt32.ofNat))

structure TypeConstraintGraph where
  varCount : UInt32
  constraints : List EqualityConstraint
deriving DecidableEq, Repr

/-- The representatives of the variables. -/
def unifyTypesCpu (graph : TypeConstraintGraph) : Option (Except String (List UInt32)) :=
  solveConstraintsCpu graph.varCount.toNat graph.constraints

/-! ### What the result says -/

def pairsOf (constraints : List EqualityConstraint) : List (Nat × Nat) :=
  constraints.map fun c => (c.left.toNat, c.right.toNat)

/-- Two variables have one representative when the equalities connect them, and it is one of
    the variables that they connect. -/
structure Solves (varCount : Nat) (constraints : List EqualityConstraint) (reps : List UInt32) :
    Prop where
  length : reps.length = varCount
  same : ∀ a b ra rb, reps[a]? = some ra → reps[b]? = some rb →
    (ra = rb ↔ Related (pairsOf constraints) a b)
  member : ∀ a ra, reps[a]? = some ra →
    ra.toNat < varCount ∧ Related (pairsOf constraints) a ra.toNat

structure Meets (varCount : Nat) (constraints : List EqualityConstraint)
    (result : Option (Except String (List UInt32))) : Prop where
  returns : ∃ r, result = some r
  fails : (∃ message, result = some (.error message)) ↔ ∃ c ∈ constraints, OutOfRange varCount c
  solves : ∀ reps, result = some (.ok reps) → Solves varCount constraints reps

/-! ### The check -/

section Check

variable {varCount : Nat} {constraints : List EqualityConstraint}

theorem validate_ok (h : ∀ c ∈ constraints, ¬ OutOfRange varCount c) (i : Nat) :
    validateConstraints varCount i constraints = .ok () := by
  induction constraints generalizing i with
  | nil => rfl
  | cons c constraints ih =>
    rw [validateConstraints, if_neg (h c List.mem_cons_self)]
    exact ih (fun c' hc => h c' (List.mem_cons_of_mem c hc)) (i + 1)

theorem validate_error (h : ∃ c ∈ constraints, OutOfRange varCount c) (i : Nat) :
    ∃ message, validateConstraints varCount i constraints = .error message := by
  induction constraints generalizing i with
  | nil =>
    obtain ⟨c, hc, -⟩ := h
    exact absurd hc List.not_mem_nil
  | cons c constraints ih =>
    rw [validateConstraints]
    by_cases hout : OutOfRange varCount c
    · exact ⟨_, if_pos hout⟩
    · rw [if_neg hout]
      apply ih
      obtain ⟨c', hc', hout'⟩ := h
      rcases List.mem_cons.mp hc' with heq | hc'
      · exact absurd (heq ▸ hout') hout
      · exact ⟨c', hc', hout'⟩

end Check

/-! ### The labels -/

section Labels

variable {varCount : Nat} {constraints : List EqualityConstraint}

theorem unions_map (constraints : List EqualityConstraint) :
    unions (constraints.map unionOf) = pairsOf constraints := by
  induction constraints with
  | nil => rfl
  | cons c constraints ih =>
    show (c.left.toNat, c.right.toNat) :: unions (constraints.map unionOf) = _
    rw [ih]
    rfl

/-- The result before it is cut: the root of every variable. -/
theorem solve_ok (h : ∀ c ∈ constraints, ¬ OutOfRange varCount c) :
    ∃ roots : List Nat, solveConstraintsCpu varCount constraints =
        some (.ok (roots.map UInt32.ofNat)) ∧ roots.length = varCount ∧
      (∀ a r : Nat, roots[a]? = some r → r < varCount ∧ Related (pairsOf constraints) a r) ∧
      ∀ a b r s : Nat, roots[a]? = some r → roots[b]? = some s →
        (r = s ↔ Related (pairsOf constraints) a b) := by
  have hrange : ∀ op ∈ constraints.map unionOf, op.InRange varCount := by
    intro op hop
    obtain ⟨c, hc, rfl⟩ := List.mem_map.mp hop
    have hin := h c hc
    unfold OutOfRange at hin
    exact ⟨by omega, by omega⟩
  obtain ⟨uf, hrun, hpart⟩ := run_spec _ (new_partition varCount) hrange
  rw [unions_map, List.append_nil] at hpart
  obtain ⟨roots, uf', hlabels, hroots⟩ := labelsLoop_spec (List.range varCount) hpart
    fun x hx => List.mem_range.mp hx
  have hlength : roots.length = varCount := by
    rw [← hroots.length_eq, List.length_range]
  have hroot : ∀ a r : Nat, roots[a]? = some r →
      r < varCount ∧ RootOf (parentOf uf.parent) a r := by
    intro a r hr
    obtain ⟨ha, hget⟩ := List.getElem?_eq_some_iff.mp hr
    have hspec := hroots.get (by rw [List.length_range]; omega) ha
    rw [List.get_eq_getElem, List.get_eq_getElem, List.getElem_range, hget] at hspec
    exact hspec
  refine ⟨roots, ?_, hlength, ?_, ?_⟩
  · rw [solveConstraintsCpu, validate_ok h]
    simp only [hrun, Option.bind_eq_bind, Option.bind_some, labels, hpart.length, hlabels]
    rfl
  · intro a r hr
    exact ⟨(hroot a r hr).1, hpart.sound a r (hroot a r hr).2⟩
  · intro a b r s hr hs
    exact hpart.root_iff (hroot a r hr).2 (hroot b s hs).2

theorem meets_of_outOfRange (h : ∃ c ∈ constraints, OutOfRange varCount c) :
    Meets varCount constraints (solveConstraintsCpu varCount constraints) := by
  obtain ⟨message, hmessage⟩ := validate_error h 0
  have hresult : solveConstraintsCpu varCount constraints = some (.error message) := by
    rw [solveConstraintsCpu, hmessage]
  rw [hresult]
  refine ⟨⟨_, rfl⟩, ⟨fun _ => h, fun _ => ⟨message, rfl⟩⟩, ?_⟩
  intro reps hreps
  cases hreps

theorem toNat_ofNat {r : Nat} (hr : r < varCount) (hcount : varCount ≤ 2 ^ 32) :
    (UInt32.ofNat r).toNat = r := by
  rw [UInt32.toNat_ofNat']
  exact Nat.mod_eq_of_lt (by omega)

theorem meets_of_small (h : ∀ c ∈ constraints, ¬ OutOfRange varCount c)
    (hcount : varCount ≤ 2 ^ 32) :
    Meets varCount constraints (solveConstraintsCpu varCount constraints) := by
  obtain ⟨roots, hresult, hlength, hmember, hsame⟩ := solve_ok h
  have hcut : ∀ (a : Nat) (ra : UInt32), (roots.map UInt32.ofNat)[a]? = some ra →
      roots[a]? = some ra.toNat := by
    intro a ra hra
    rw [List.getElem?_map] at hra
    obtain ⟨r, hr, rfl⟩ := Option.map_eq_some_iff.mp hra
    rw [toNat_ofNat (hmember a r hr).1 hcount]
    exact hr
  rw [hresult]
  refine ⟨⟨_, rfl⟩, ⟨?_, ?_⟩, ?_⟩
  · intro ⟨message, hmessage⟩
    cases hmessage
  · intro ⟨c, hc, hout⟩
    exact absurd hout (h c hc)
  · intro reps hreps
    rw [← Except.ok.inj (Option.some.inj hreps)]
    refine ⟨by rw [List.length_map, hlength], ?_, ?_⟩
    · intro a b ra rb ha hb
      rw [← hsame a b _ _ (hcut a ra ha) (hcut b rb hb)]
      exact UInt32.toNat_inj.symm
    · intro a ra ha
      exact hmember a _ (hcut a ra ha)

/-- A variable that no constraint can mention is alone. -/
theorem eq_of_related {a b : Nat} (hlarge : 2 ^ 32 ≤ a)
    (h : Related (pairsOf constraints) a b) : b = a := by
  have hmentioned : ∀ x y, (x, y) ∈ pairsOf constraints → x < 2 ^ 32 ∧ y < 2 ^ 32 := by
    intro x y hmem
    obtain ⟨c, -, heq⟩ := List.mem_map.mp hmem
    obtain ⟨rfl, rfl⟩ := Prod.mk.inj heq
    exact ⟨c.left.toNat_lt, c.right.toNat_lt⟩
  have hiff : ∀ {x y}, Related (pairsOf constraints) x y → (x = a ↔ y = a) := by
    intro x y hrel
    induction hrel with
    | rel x y hmem =>
      have hlt := hmentioned x y hmem
      omega
    | refl x => rfl
    | symm x y _ ih => exact ih.symm
    | trans x y z _ _ ihxy ihyz => exact ihxy.trans ihyz
  exact (hiff h).mp rfl

/-- With more variables than `u32` has values, the root `2 ^ 32` is cut to `0`. -/
theorem not_meets_of_large (h : ∀ c ∈ constraints, ¬ OutOfRange varCount c)
    (hcount : 2 ^ 32 < varCount) :
    ¬ Meets varCount constraints (solveConstraintsCpu varCount constraints) := by
  intro hmeets
  obtain ⟨roots, hresult, hlength, hmember, -⟩ := solve_ok h
  obtain ⟨r, hr⟩ : ∃ r, roots[2 ^ 32]? = some r :=
    ⟨_, List.getElem?_eq_getElem (by rw [hlength]; exact hcount)⟩
  have hself : r = 2 ^ 32 := eq_of_related (Nat.le_refl _) (hmember _ r hr).2
  have hcut : (roots.map UInt32.ofNat)[2 ^ 32]? = some (UInt32.ofNat (2 ^ 32)) := by
    rw [List.getElem?_map, hr, hself]
    rfl
  have hrelated := ((hmeets.solves _ hresult).member _ _ hcut).2
  have hzero : (UInt32.ofNat (2 ^ 32)).toNat = 0 := by decide
  rw [hzero] at hrelated
  have hsame := eq_of_related (Nat.le_refl _) hrelated
  omega

end Labels

/-- Every sequence of operations keeps the forest acyclic and its roots one for each class of
    what was united; the labels of the constraints tell these classes apart exactly when
    there are no more variables than 32 bits count, or the constraints are refused; for types
    there never are more. -/
theorem unification_correct (n : Nat) (ops : List Op) (varCount : Nat)
    (constraints : List EqualityConstraint) (graph : TypeConstraintGraph) :
    ((∀ op ∈ ops, op.InRange n) → ∃ uf, run (new n) ops = some uf ∧
      Acyclic (parentOf uf.parent) ∧ uf.components = (classes n (unions ops)).ncard ∧
      ∀ a b, a < n → b < n →
        (∃ ra uf₁ rb uf₂, find uf a = some (ra, uf₁) ∧ find uf₁ b = some (rb, uf₂) ∧
          (ra = rb ↔ Related (unions ops) a b)) ∧
        ∃ joined uf', union uf a b = some (joined, uf') ∧
          (joined = true ↔ ¬ Related (unions ops) a b)) ∧
    (Meets varCount constraints (solveConstraintsCpu varCount constraints) ↔
      varCount ≤ 2 ^ 32 ∨ ∃ c ∈ constraints, OutOfRange varCount c) ∧
    Meets graph.varCount.toNat graph.constraints (unifyTypesCpu graph) := by
  refine ⟨?_, ?_, ?_⟩
  · intro hrange
    obtain ⟨uf, hrun, hpart⟩ := run_spec ops (new_partition n) hrange
    rw [List.append_nil] at hpart
    refine ⟨uf, hrun, hpart.forest.acyclic, hpart.ncard_classes, ?_⟩
    intro a b ha hb
    constructor
    · obtain ⟨ra, uf₁, hfind₁, -, hroot₁, hpart₁, hkept⟩ := find_spec hpart ha
      obtain ⟨rb, uf₂, hfind₂, -, hroot₂, -, -⟩ := find_spec hpart₁ hb
      exact ⟨ra, uf₁, rb, uf₂, hfind₁, hfind₂, hpart₁.root_iff (hkept a ra hroot₁) hroot₂⟩
    · obtain ⟨joined, uf', hunion, hjoined, -⟩ := union_spec hpart ha hb
      exact ⟨joined, uf', hunion, hjoined⟩
  · by_cases hout : ∃ c ∈ constraints, OutOfRange varCount c
    · exact ⟨fun _ => .inr hout, fun _ => meets_of_outOfRange hout⟩
    · have hin : ∀ c ∈ constraints, ¬ OutOfRange varCount c :=
        fun c hc hrange => hout ⟨c, hc, hrange⟩
      constructor
      · intro hmeets
        left
        by_contra hlarge
        exact not_meets_of_large hin (by omega) hmeets
      · intro hcase
        exact meets_of_small hin (hcase.resolve_right hout)
  · by_cases hout : ∃ c ∈ graph.constraints, OutOfRange graph.varCount.toNat c
    · exact meets_of_outOfRange hout
    · exact meets_of_small (fun c hc hrange => hout ⟨c, hc, hrange⟩)
        (Nat.le_of_lt graph.varCount.toNat_lt)

theorem unification_correct_run :
    ∃ uf, run (new 6) [.union 0 1, .union 1 2, .find 2, .union 4 5] = some uf ∧
      uf.components = (classes 6 [(0, 1), (1, 2), (4, 5)]).ncard := by
  have hrange : ∀ op ∈ [Op.union 0 1, .union 1 2, .find 2, .union 4 5], op.InRange 6 := by
    simp [Op.InRange]
  obtain ⟨uf, hrun, -, hcomponents, -⟩ := (unification_correct 6 _ 0 [] ⟨0, []⟩).1 hrange
  exact ⟨uf, hrun, hcomponents⟩

theorem last_variable_cut :
    ¬ ∀ varCount constraints,
      Meets varCount constraints (solveConstraintsCpu varCount constraints) := by
  intro h
  exact not_meets_of_large (fun c hc => absurd hc List.not_mem_nil)
    (show 2 ^ 32 < 2 ^ 32 + 1 by omega) (h (2 ^ 32 + 1) [])

end Canon.Algorithms.Unification
