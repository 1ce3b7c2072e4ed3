import Mathlib.Algebra.GroupWithZero.Nat
import Mathlib.Data.List.Basic

/-! # Arc consistency

    `ac3` of `constraints/ac3.rs`.  A queue holds the arcs that have to be checked; when the
    check of an arc takes values from a domain, the arcs into that domain are queued again,
    except the opposite one, which is taken for the same constraint.

    * `revise`, `ac3`: the check of an arc and the loop over the queue,
    * `Settled`: the arcs that are not queued are consistent, preserved by
      `settled_unrevised` and `settled_revised`,
    * `ac3_returns`: the loop ends,
    * `ac3_consistent`: what it returns, where opposite arcs carry one constraint,
    * `ac3_keeps_solutions`: no solution is lost.
-/

namespace Canon.Algorithms.Ac3

variable (domains : List Domain) (graph : ConstraintGraph)

/-! ### Model -/

abbrev Domain := List Int32

abbrev ConstraintFn := Int32 → Int32 → Bool

/-- The constraints in the order in which the map gives them. -/
structure ConstraintGraph where
  constraints : List ((Nat × Nat) × ConstraintFn)
  nodup : (constraints.map Prod.fst).Nodup

def ConstraintGraph.constraint (i j : Nat) : Option ConstraintFn :=
  graph.constraints.lookup (i, j)

/-- The check of an arc.  Nothing for an index that is out of range, where the code panics;
    the second domain is read only when the first has a value. -/
def revise (i j : Nat) :
    Option (List Domain × Bool) :=
  match graph.constraint i j with
  | none => some (domains, false)
  | some pred => do
    let di ← domains[i]?
    if di = [] then pure (domains, false)
    else do
      let dj ← domains[j]?
      let keep := di.filter fun x => dj.any fun y => pred x y
      if di.all fun x => dj.any fun y => pred x y then pure (domains, false)
      else pure (domains.set i keep, true)

/-- The arcs that are queued again after a domain has changed. -/
def requeued (i j : Nat) : List (Nat × Nat) :=
  (graph.constraints.filter fun c => c.1.2 = i ∧ c.1.1 ≠ j).map fun c => (c.1.1, i)

/-- Nothing also when the fuel is spent. -/
def ac3Loop (graph : ConstraintGraph) :
    Nat → List (Nat × Nat) → List Domain → Option (List Domain × Bool)
  | 0, _, _ => none
  | _ + 1, [], domains => some (domains, true)
  | fuel + 1, (i, j) :: queue, domains => do
    let (domains, revised) ← revise domains graph i j
    if revised then
      if domains[i]? = some [] then pure (domains, false)
      else ac3Loop graph fuel (queue ++ requeued graph i j) domains
    else ac3Loop graph fuel queue domains

/-- How many values there are. -/
def size : Nat := (domains.map List.length).sum

/-- The domains after the call and what it returns. -/
def ac3 : Option (List Domain × Bool) :=
  ac3Loop graph ((graph.constraints.length + 1) * (size domains + 1))
    (graph.constraints.map Prod.fst) domains

/-- The values left for a variable. -/
def domainOf (i : Nat) : Domain := domains.getD i []

/-- Every value of the first variable has a support. -/
def Supported (i j : Nat) (pred : ConstraintFn) : Prop :=
  ∀ x ∈ domainOf domains i, ∃ y ∈ domainOf domains j, pred x y = true

def Consistent : Prop :=
  ∀ i j pred, graph.constraint i j = some pred → Supported domains i j pred

/-- Opposite arcs carry one constraint, read from both sides. -/
def OneConstraint : Prop :=
  ∀ i j pred opposite, graph.constraint i j = some pred →
    graph.constraint j i = some opposite →
      ∀ x ∈ domainOf domains i, ∀ y ∈ domainOf domains j, pred x y = opposite y x

/-! ### The check of an arc -/

variable {domains domains' : List Domain} {graph : ConstraintGraph} {i j : Nat}
  {queue : List (Nat × Nat)} {revised : Bool}

theorem domainOf_of_eq {d : Domain} (h : domains[i]? = some d) : domainOf domains i = d := by
  rw [domainOf, List.getD_eq_getElem?_getD, h]
  rfl

theorem domainOf_set_of_ne {keep : Domain} {k : Nat} (h : k ≠ i) :
    domainOf (domains.set i keep) k = domainOf domains k := by
  rw [domainOf, domainOf, List.getD_eq_getElem?_getD, List.getD_eq_getElem?_getD,
    List.getElem?_set_ne (Ne.symm h)]

theorem domainOf_set_self {keep : Domain} (h : i < domains.length) :
    domainOf (domains.set i keep) i = keep := by
  apply domainOf_of_eq
  rw [List.getElem?_set_self h]

/-- What the check of an arc does: nothing where every value has a support, and otherwise
    the values without one go. -/
theorem revise_cases (h : revise domains graph i j = some (domains', revised)) :
    (domains' = domains ∧ revised = false ∧
      ∀ pred, graph.constraint i j = some pred → Supported domains i j pred) ∨
    ∃ pred, graph.constraint i j = some pred ∧ i < domains.length ∧ j < domains.length ∧
      revised = true ∧
      domains' = domains.set i ((domainOf domains i).filter fun x =>
        (domainOf domains j).any fun y => pred x y) ∧
      ∃ x ∈ domainOf domains i, ∀ y ∈ domainOf domains j, pred x y = false := by
  rw [revise] at h
  cases hpred : graph.constraint i j with
  | none =>
    rw [hpred] at h
    obtain ⟨rfl, rfl⟩ := Prod.mk.inj (Option.some.inj h)
    exact .inl ⟨rfl, rfl, fun pred hsome => by cases hsome⟩
  | some pred =>
    simp only [hpred] at h
    cases hdi : domains[i]? with
    | none =>
      rw [hdi] at h
      cases h
    | some di =>
      have hi := domainOf_of_eq hdi
      rw [hdi, Option.bind_eq_bind, Option.bind_some] at h
      by_cases hempty : di = []
      · rw [if_pos hempty] at h
        obtain ⟨rfl, rfl⟩ := Prod.mk.inj (Option.some.inj h)
        refine .inl ⟨rfl, rfl, ?_⟩
        intro p _ x hx
        rw [hi, hempty] at hx
        exact absurd hx List.not_mem_nil
      · rw [if_neg hempty] at h
        cases hdj : domains[j]? with
        | none =>
          rw [hdj] at h
          cases h
        | some dj =>
          have hj := domainOf_of_eq hdj
          simp only [hdj, Option.bind_some] at h
          by_cases hall : (di.all fun x => dj.any fun y => pred x y) = true
          · simp only [hall, if_true] at h
            obtain ⟨rfl, rfl⟩ := Prod.mk.inj (Option.some.inj h)
            refine .inl ⟨rfl, rfl, ?_⟩
            intro p hp x hx
            rw [← Option.some.inj hp]
            rw [hi] at hx
            rw [hj]
            exact List.any_eq_true.mp (List.all_eq_true.mp hall x hx)
          · simp only [if_neg hall] at h
            obtain ⟨rfl, rfl⟩ := Prod.mk.inj (Option.some.inj h)
            obtain ⟨hlti, -⟩ := List.getElem?_eq_some_iff.mp hdi
            obtain ⟨hltj, -⟩ := List.getElem?_eq_some_iff.mp hdj
            refine .inr ⟨pred, rfl, hlti, hltj, rfl, by rw [hi, hj], ?_⟩
            rw [hi, hj]
            rw [List.all_eq_true, not_forall] at hall
            obtain ⟨x, hx⟩ := hall
            rw [Classical.not_imp, List.any_eq_true, not_exists] at hx
            refine ⟨x, hx.1, ?_⟩
            intro y hy
            exact Bool.eq_false_iff.mpr fun htrue => hx.2 y ⟨hy, htrue⟩

/-- No value is added. -/
def Shrunk (initial domains : List Domain) : Prop :=
  domains.length = initial.length ∧ ∀ k, ∀ x ∈ domainOf domains k, x ∈ domainOf initial k

variable {initial : List Domain} {pred : ConstraintFn}

theorem shrunk_revise (hinit : Shrunk initial domains)
    (h : revise domains graph i j = some (domains', revised)) : Shrunk initial domains' := by
  rcases revise_cases h with ⟨rfl, -, -⟩ | ⟨pred, -, hlt, -, -, rfl, -⟩
  · exact hinit
  · refine ⟨by rw [List.length_set, hinit.1], ?_⟩
    intro k x hx
    by_cases hk : k = i
    · rw [hk, domainOf_set_self hlt] at hx
      rw [hk]
      exact hinit.2 i x (List.mem_of_mem_filter hx)
    · rw [domainOf_set_of_ne hk] at hx
      exact hinit.2 k x hx

/-! ### The queue -/

/-- The arcs that are not queued are consistent. -/
def Settled (graph : ConstraintGraph) (queue : List (Nat × Nat)) (domains : List Domain) : Prop :=
  ∀ k l pred, graph.constraint k l = some pred → (k, l) ∈ queue ∨ Supported domains k l pred

theorem mem_of_constraint (h : graph.constraint i j = some pred) :
    ((i, j), pred) ∈ graph.constraints := by
  obtain ⟨front, back, heq, -⟩ := List.lookup_eq_some_iff.mp h
  rw [heq]
  exact List.mem_append_right front List.mem_cons_self

theorem mem_requeued {k : Nat} (h : graph.constraint k i = some pred) (hk : k ≠ j) :
    (k, i) ∈ requeued graph i j :=
  List.mem_map.mpr ⟨((k, i), pred), List.mem_filter.mpr ⟨mem_of_constraint h,
    decide_eq_true ⟨rfl, hk⟩⟩, rfl⟩

/-- A check that takes nothing settles its arc. -/
theorem settled_unrevised (h : Settled graph ((i, j) :: queue) domains)
    (harc : ∀ pred, graph.constraint i j = some pred → Supported domains i j pred) :
    Settled graph queue domains := by
  intro k l pred hpred
  rcases h k l pred hpred with hmem | hsupported
  · rcases List.mem_cons.mp hmem with heq | hmem
    · obtain ⟨rfl, rfl⟩ := Prod.mk.inj heq
      exact .inr (harc pred hpred)
    · exact .inl hmem
  · exact .inr hsupported

/-- A check that takes values settles its arc, and the opposite arc loses no support when it
    carries the same constraint. -/
theorem settled_revised (hone : OneConstraint initial graph) (hinit : Shrunk initial domains)
    (h : Settled graph ((i, j) :: queue) domains) (hpred : graph.constraint i j = some pred)
    (hlt : i < domains.length) :
    Settled graph (queue ++ requeued graph i j) (domains.set i ((domainOf domains i).filter
      fun x => (domainOf domains j).any fun y => pred x y)) := by
  have hkept : ∀ {x}, x ∈ (domainOf domains i).filter (fun x =>
      (domainOf domains j).any fun y => pred x y) ↔
        x ∈ domainOf domains i ∧ ∃ y ∈ domainOf domains j, pred x y = true := by
    intro x
    rw [List.mem_filter, List.any_eq_true]
  intro k l q hq
  by_cases hl : l = i
  · rw [hl] at hq ⊢
    by_cases hk : k = j
    · rw [hk] at hq ⊢
      by_cases hij : i = j
      -- The arc of a variable to itself: a support of a kept value is kept.
      · rw [← hij] at hq hpred hkept ⊢
        have hsame : q = pred := Option.some.inj (hq.symm.trans hpred)
        right
        intro x hx
        rw [domainOf_set_self hlt] at hx ⊢
        obtain ⟨hx, y, hy, hxy⟩ := hkept.mp hx
        refine ⟨y, hkept.mpr ⟨hy, x, hx, ?_⟩, by rw [hsame]; exact hxy⟩
        rw [← hone i i pred pred hpred hpred x (hinit.2 i x hx) y (hinit.2 i y hy)]
        exact hxy
      · rcases h j i q hq with hmem | hsupported
        · left
          rcases List.mem_cons.mp hmem with heq | hmem
          · exact absurd (Prod.mk.inj heq).1.symm hij
          · exact List.mem_append_left _ hmem
        · right
          intro y hy
          rw [domainOf_set_of_ne (Ne.symm hij)] at hy
          obtain ⟨x, hx, hyx⟩ := hsupported y hy
          rw [domainOf_set_self hlt]
          refine ⟨x, hkept.mpr ⟨hx, y, hy, ?_⟩, hyx⟩
          rw [hone i j pred q hpred hq x (hinit.2 i x hx) y (hinit.2 j y hy)]
          exact hyx
    · exact .inl (List.mem_append_right _ (mem_requeued hq hk))
  · by_cases hmem : (k, l) ∈ queue
    · exact .inl (List.mem_append_left _ hmem)
    · right
      intro x hx
      rw [domainOf_set_of_ne hl]
      by_cases hk : k = i
      · rw [hk] at hx hq hmem
        rw [domainOf_set_self hlt] at hx
        obtain ⟨hx, hsupport⟩ := hkept.mp hx
        by_cases hlj : l = j
        · rw [hlj] at hq ⊢
          rw [Option.some.inj (hq.symm.trans hpred)]
          exact hsupport
        · have hold := (h i l q hq).resolve_left fun hmem' =>
            (List.mem_cons.mp hmem').elim (fun heq => hlj (Prod.mk.inj heq).2) hmem
          exact hold x hx
      · rw [domainOf_set_of_ne hk] at hx
        have hold := (h k l q hq).resolve_left fun hmem' =>
          (List.mem_cons.mp hmem').elim (fun heq => hk (Prod.mk.inj heq).1) hmem
        exact hold x hx

/-- A run that returns true ends with every arc settled. -/
theorem ac3Loop_consistent (hone : OneConstraint initial graph) (fuel : Nat) :
    ∀ (queue : List (Nat × Nat)) (domains out : List Domain),
      Shrunk initial domains → Settled graph queue domains →
        ac3Loop graph fuel queue domains = some (out, true) → Consistent out graph := by
  induction fuel with
  | zero =>
    intro queue domains out _ _ h
    cases h
  | succ fuel ih =>
    intro queue domains out hinit hsettled h
    match queue with
    | [] =>
      rw [ac3Loop] at h
      rw [← (Prod.mk.inj (Option.some.inj h)).1]
      intro i j pred hpred
      exact (hsettled i j pred hpred).resolve_left List.not_mem_nil
    | (i, j) :: queue =>
      rw [ac3Loop] at h
      cases hrevise : revise domains graph i j with
      | none =>
        rw [hrevise] at h
        cases h
      | some next =>
        obtain ⟨domains', revised⟩ := next
        rw [hrevise, Option.bind_eq_bind, Option.bind_some] at h
        have hshrunk := shrunk_revise hinit hrevise
        rcases revise_cases hrevise with ⟨rfl, rfl, harc⟩ | ⟨pred, hpred, hlt, -, rfl, rfl, -⟩
        · exact ih queue domains' out hinit (settled_unrevised hsettled harc) h
        · simp only [if_true] at h
          split at h
          · cases h
          · exact ih _ _ out hshrunk (settled_revised hone hinit hsettled hpred hlt) h

/-! ### Termination -/

theorem size_cons (d : Domain) (domains : List Domain) :
    size (d :: domains) = d.length + size domains := by
  rw [size, List.map_cons, List.sum_cons, size]

theorem size_set_lt {keep : Domain} (hlt : i < domains.length)
    (hkeep : keep.length < (domainOf domains i).length) :
    size (domains.set i keep) < size domains := by
  induction domains generalizing i with
  | nil => exact absurd hlt (Nat.not_lt_zero i)
  | cons d domains ih =>
    cases i with
    | zero =>
      have hd : keep.length < d.length := hkeep
      rw [List.set_cons_zero, size_cons, size_cons]
      omega
    | succ i =>
      have hrest := @ih i (Nat.lt_of_succ_lt_succ hlt) hkeep
      rw [List.set_cons_succ, size_cons, size_cons]
      omega

theorem size_revise (h : revise domains graph i j = some (domains', revised)) :
    size domains' + (if revised then 1 else 0) ≤ size domains := by
  rcases revise_cases h with ⟨rfl, rfl, -⟩ | ⟨pred, -, hlt, -, rfl, rfl, x, hx, hnone⟩
  · simp
  · have hshorter : ((domainOf domains i).filter fun x =>
        (domainOf domains j).any fun y => pred x y).length < (domainOf domains i).length := by
      apply List.length_filter_lt_length_iff_exists.mpr
      refine ⟨x, hx, ?_⟩
      rw [List.any_eq_true]
      intro ⟨y, hy, hxy⟩
      rw [hnone y hy] at hxy
      cases hxy
    have hless := size_set_lt hlt hshorter
    simp only [if_true]
    omega

/-- The variables of the constraints have domains. -/
def InRange (domains : List Domain) (graph : ConstraintGraph) : Prop :=
  ∀ c ∈ graph.constraints, c.1.1 < domains.length ∧ c.1.2 < domains.length

theorem exists_revise (hrange : InRange domains graph) (i j : Nat) :
    ∃ r, revise domains graph i j = some r := by
  rw [revise]
  cases hpred : graph.constraint i j with
  | none => exact ⟨_, rfl⟩
  | some pred =>
    obtain ⟨hi, hj⟩ := hrange _ (mem_of_constraint hpred)
    simp only [List.getElem?_eq_getElem hi, List.getElem?_eq_getElem hj, Option.bind_eq_bind,
      Option.bind_some]
    split
    · exact ⟨_, rfl⟩
    · split
      · exact ⟨_, rfl⟩
      · exact ⟨_, rfl⟩

theorem ac3Loop_returns (fuel : Nat) : ∀ (queue : List (Nat × Nat)) (domains : List Domain),
    InRange domains graph →
      (graph.constraints.length + 1) * size domains + queue.length < fuel →
        ∃ r, ac3Loop graph fuel queue domains = some r := by
  induction fuel with
  | zero =>
    intro queue domains _ hfuel
    omega
  | succ fuel ih =>
    intro queue domains hrange hfuel
    match queue with
    | [] => exact ⟨_, rfl⟩
    | (i, j) :: queue =>
      rw [List.length_cons] at hfuel
      obtain ⟨⟨domains', revised⟩, hrevise⟩ := exists_revise hrange i j
      have hsize := size_revise hrevise
      have hlength : domains'.length = domains.length :=
        (shrunk_revise ⟨rfl, fun _ _ hx => hx⟩ hrevise).1
      have hrange' : InRange domains' graph := by
        intro c hc
        rw [hlength]
        exact hrange c hc
      rw [ac3Loop, hrevise, Option.bind_eq_bind, Option.bind_some]
      cases revised with
      | false =>
        have hmul := Nat.mul_le_mul_left (graph.constraints.length + 1)
          (show size domains' ≤ size domains from hsize)
        exact ih queue domains' hrange' (by omega)
      | true =>
        simp only [if_true]
        split
        · exact ⟨_, rfl⟩
        · have hmul := Nat.mul_le_mul_left (graph.constraints.length + 1)
            (show size domains' + 1 ≤ size domains from hsize)
          have hadded : (requeued graph i j).length ≤ graph.constraints.length := by
            rw [requeued, List.length_map]
            exact List.length_filter_le ..
          rw [Nat.mul_add, Nat.mul_one] at hmul
          apply ih _ domains' hrange'
          rw [List.length_append]
          omega

/-- The loop ends for all domains when the constraints are about variables that have one. -/
theorem ac3_returns (hrange : InRange domains graph) : ∃ r, ac3 domains graph = some r := by
  apply ac3Loop_returns _ _ _ hrange
  rw [List.length_map, Nat.mul_add, Nat.mul_one]
  omega

/-! ### Consistency -/

/-- The loop ends where the constraints are about variables that have a domain, and where
    opposite arcs carry one constraint a run that returns true, in whatever order the map
    gives the arcs, leaves every value with a support for every arc. -/
theorem ac3_consistent (domains : List Domain) (graph : ConstraintGraph) :
    (InRange domains graph → ∃ r, ac3 domains graph = some r) ∧
    (OneConstraint domains graph →
      ∀ out, ac3 domains graph = some (out, true) → Consistent out graph) := by
  refine ⟨fun hrange => ac3_returns hrange, ?_⟩
  intro hone out h
  apply ac3Loop_consistent hone _ _ _ out ⟨rfl, fun _ _ hx => hx⟩ _ h
  intro i j pred hpred
  exact .inl (List.mem_map.mpr ⟨((i, j), pred), mem_of_constraint hpred, rfl⟩)

/-- Two variables that differ, seen from both sides. -/
def differGraph : ConstraintGraph :=
  ⟨[((0, 1), fun x y => x != y), ((1, 0), fun x y => x != y)], by decide⟩

theorem differ_oneConstraint (domains : List Domain) : OneConstraint domains differGraph := by
  have hpred : ∀ i j pred, differGraph.constraint i j = some pred → pred = fun x y => x != y := by
    intro i j pred h
    have hmem := mem_of_constraint h
    simp only [differGraph, List.mem_cons, Prod.mk.injEq, List.not_mem_nil, or_false] at hmem
    rcases hmem with ⟨-, heq⟩ | ⟨-, heq⟩
    · exact heq
    · exact heq
  intro i j pred opposite hij hji x _ y _
  rw [hpred i j pred hij, hpred j i opposite hji]
  exact bne_comm

theorem differ_inRange : InRange [[1, 2], [2]] differGraph := by
  intro c hc
  simp only [differGraph, List.mem_cons, List.not_mem_nil, or_false] at hc
  rcases hc with rfl | rfl
  · decide
  · decide

theorem ac3_consistent_differ :
    (∃ r, ac3 [[1, 2], [2]] differGraph = some r) ∧ Consistent [[1], [2]] differGraph :=
  ⟨(ac3_consistent [[1, 2], [2]] differGraph).1 differ_inRange,
    (ac3_consistent [[1, 2], [2]] differGraph).2 (differ_oneConstraint _) [[1], [2]] (by decide)⟩

/-- The second value is the next one, but `0` is taken as a support of everything. -/
def oneSidedGraph : ConstraintGraph :=
  ⟨[((1, 0), fun _ x => x == 0), ((0, 1), fun x y => y == x + 1)], by decide⟩

/-- The values of the second variable lose their support `0` when the first is revised, and
    their arc is the one that is not queued again. -/
theorem opposite_arcs_left_inconsistent :
    ¬ ∀ (domains : List Domain) (graph : ConstraintGraph) (out : List Domain),
      ac3 domains graph = some (out, true) → Consistent out graph := by
  intro h
  have hsupport := h [[0, 1], [2]] oneSidedGraph [[1], [2]] (by decide) 1 0 _ rfl 2 (by decide)
  revert hsupport
  decide

/-! ### Solutions -/

/-- Values from the domains that satisfy every constraint. -/
def Solution (domains : List Domain) (graph : ConstraintGraph) (value : Nat → Int32) : Prop :=
  (∀ k < domains.length, value k ∈ domainOf domains k) ∧
    ∀ c ∈ graph.constraints, c.2 (value c.1.1) (value c.1.2) = true

/-- Values may have been taken from the domains; the others stand in their order. -/
def Pruned (initial domains : List Domain) : Prop :=
  domains.length = initial.length ∧ ∀ k, (domainOf domains k).Sublist (domainOf initial k)

theorem pruned_revise (hinit : Pruned initial domains)
    (h : revise domains graph i j = some (domains', revised)) : Pruned initial domains' := by
  rcases revise_cases h with ⟨rfl, -, -⟩ | ⟨pred, -, hlt, -, -, rfl, -⟩
  · exact hinit
  · constructor
    · rw [List.length_set, hinit.1]
    · intro k
      by_cases hk : k = i
      · rw [hk, domainOf_set_self hlt]
        exact List.filter_sublist.trans (hinit.2 i)
      · rw [domainOf_set_of_ne hk]
        exact hinit.2 k

/-- The check of an arc takes no value of a solution: the value of the second variable is a
    support of the value of the first. -/
theorem solution_revise {value : Nat → Int32} (hsol : Solution domains graph value)
    (h : revise domains graph i j = some (domains', revised)) :
    Solution domains' graph value := by
  rcases revise_cases h with ⟨rfl, -, -⟩ | ⟨pred, hpred, hlti, hltj, -, rfl, -⟩
  · exact hsol
  · refine ⟨?_, hsol.2⟩
    intro k hk
    rw [List.length_set] at hk
    by_cases hki : k = i
    · rw [hki, domainOf_set_self hlti, List.mem_filter, List.any_eq_true]
      have hholds := hsol.2 _ (mem_of_constraint hpred)
      exact ⟨hsol.1 i hlti, value j, hsol.1 j hltj, hholds⟩
    · rw [domainOf_set_of_ne hki]
      exact hsol.1 k hk

/-- What every check of an arc keeps holds when the loop ends. -/
theorem ac3Loop_preserves {P : List Domain → Prop}
    (hstep : ∀ {domains domains' i j revised}, P domains →
      revise domains graph i j = some (domains', revised) → P domains') (fuel : Nat) :
    ∀ {queue : List (Nat × Nat)} {domains out : List Domain} {b : Bool}, P domains →
      ac3Loop graph fuel queue domains = some (out, b) → P out := by
  induction fuel with
  | zero =>
    intro queue domains out b _ h
    cases h
  | succ fuel ih =>
    intro queue domains out b hP h
    match queue with
    | [] =>
      rw [ac3Loop] at h
      rw [← (Prod.mk.inj (Option.some.inj h)).1]
      exact hP
    | (i, j) :: queue =>
      rw [ac3Loop] at h
      cases hrevise : revise domains graph i j with
      | none =>
        rw [hrevise] at h
        cases h
      | some next =>
        obtain ⟨domains', revised⟩ := next
        rw [hrevise, Option.bind_eq_bind, Option.bind_some] at h
        have hP' := hstep hP hrevise
        cases revised with
        | false => exact ih hP' h
        | true =>
          simp only [if_true] at h
          split at h
          · rw [← (Prod.mk.inj (Option.some.inj h)).1]
            exact hP'
          · exact ih hP' h

/-- The loop returns false only when a domain has become empty. -/
theorem exists_empty_of_false (fuel : Nat) :
    ∀ {queue : List (Nat × Nat)} {domains out : List Domain},
      ac3Loop graph fuel queue domains = some (out, false) → ∃ k : Nat, out[k]? = some [] := by
  induction fuel with
  | zero =>
    intro queue domains out h
    cases h
  | succ fuel ih =>
    intro queue domains out h
    match queue with
    | [] => cases h
    | (i, j) :: queue =>
      rw [ac3Loop] at h
      cases hrevise : revise domains graph i j with
      | none =>
        rw [hrevise] at h
        cases h
      | some next =>
        obtain ⟨domains', revised⟩ := next
        rw [hrevise, Option.bind_eq_bind, Option.bind_some] at h
        cases revised with
        | false => exact ih h
        | true =>
          simp only [if_true] at h
          split at h
          · next hempty =>
            rw [← (Prod.mk.inj (Option.some.inj h)).1]
            exact ⟨i, hempty⟩
          · exact ih h

/-- For constraints about variables that have a domain the run ends, and a run, in whatever
    order the map gives the arcs, only takes values, takes none of a solution, and returns
    false only where there is no solution. -/
theorem ac3_keeps_solutions (domains : List Domain) (graph : ConstraintGraph) :
    (InRange domains graph → ∃ r, ac3 domains graph = some r) ∧
    ∀ out b, ac3 domains graph = some (out, b) →
      Pruned domains out ∧
      (∀ value, Solution domains graph value → ∀ k < domains.length,
        value k ∈ domainOf out k) ∧
      (b = false → ¬ ∃ value, Solution domains graph value) := by
  refine ⟨fun hrange => ac3_returns hrange, ?_⟩
  intro out b h
  have hpruned : Pruned domains out :=
    ac3Loop_preserves pruned_revise _ ⟨rfl, fun k => List.Sublist.refl _⟩ h
  have hkept : ∀ value, Solution domains graph value → Solution out graph value := by
    intro value hsol
    exact ac3Loop_preserves solution_revise _ hsol h
  refine ⟨hpruned, ?_, ?_⟩
  · intro value hsol k hk
    rw [← hpruned.1] at hk
    exact (hkept value hsol).1 k hk
  · intro hb ⟨value, hsol⟩
    rw [hb] at h
    obtain ⟨k, hempty⟩ := exists_empty_of_false _ h
    obtain ⟨hk, -⟩ := List.getElem?_eq_some_iff.mp hempty
    have hmem := (hkept value hsol).1 k hk
    rw [domainOf_of_eq hempty] at hmem
    exact absurd hmem List.not_mem_nil

theorem ac3_keeps_solutions_differ :
    (∃ r, ac3 [[1, 2], [2]] differGraph = some r) ∧ Pruned [[1, 2], [2]] [[1], [2]] :=
  ⟨(ac3_keeps_solutions [[1, 2], [2]] differGraph).1 differ_inRange,
    ((ac3_keeps_solutions [[1, 2], [2]] differGraph).2 [[1], [2]] true (by decide)).1⟩

/-- A constraint about variables without a domain. -/
def strayGraph : ConstraintGraph := ⟨[((0, 1), fun x y => x == y)], by decide⟩

theorem ac3_indexes_no_domain :
    ¬ ∀ (domains : List Domain) (graph : ConstraintGraph), ∃ r, ac3 domains graph = some r := by
  intro h
  obtain ⟨r, hr⟩ := h [] strayGraph
  have hnone : ac3 [] strayGraph = none := by decide
  rw [hnone] at hr
  cases hr

end Canon.Algorithms.Ac3
