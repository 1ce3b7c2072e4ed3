import Mathlib.Data.Int.Basic
import Canon.Algorithms.Ac3
import Canon.Lib.Ragged

/-! # The arrays for the GPU

    `GpuArcConstraints` of `constraints/ac3.rs`: the domains and the constraint matrices as
    flat arrays with offsets, all of them `i32`.

    * `new`, `validate`, `toDomains`: the functions of the source,
    * `layout`, `new_eq`: the arrays in closed form,
    * `RoundTrip`: what the arrays are for,
    * `Survives`: the indices that the cast to `i32` and back does not change.
-/

namespace Canon.Algorithms.GpuLayout

open Canon.Algorithms.Ac3 Canon.Lib.Ragged

/-! ### Model -/

/-- `n as i32` for a `usize`. -/
def asI32 (n : Nat) : Int := Int.bmod n 4294967296

/-- `x as usize` for an `i32`. -/
def asUsize (x : Int) : Nat := (x % 18446744073709551616).toNat

/-- The result of an operation on `i32`; nothing where it overflows. -/
def checkedI32 (x : Int) : Option Int :=
  if -2147483648 ≤ x ∧ x < 2147483648 then some x else none

structure GpuArcConstraints where
  arcI : List Int
  arcJ : List Int
  arcDomILen : List Int
  arcDomJLen : List Int
  arcConstraintOffset : List Int
  domainOffsets : List Int
  domainActive : List Int
  constraintValues : List UInt8
  domainValues : List Int32
  domainValueOffsets : List Int
deriving DecidableEq, Repr

/-- The loop that builds an array of offsets; both arrays are built by the same steps. -/
def offsetsLoop : List Domain → List Int → Option (List Int)
  | [], offsets => some offsets
  | d :: domains, offsets => do
    let next ← checkedI32 (offsets.getLast?.getD 0 + asI32 d.length)
    offsetsLoop domains (offsets ++ [next])

def matrix (di dj : Domain) (pred : ConstraintFn) : List UInt8 :=
  di.flatMap fun x => dj.map fun y => if pred x y then 1 else 0

/-- The loop over the constraints.  Nothing for an index out of bounds. -/
def arcLoop (domains : List Domain) :
    List ((Nat × Nat) × ConstraintFn) → GpuArcConstraints → Option GpuArcConstraints
  | [], g => some g
  | ((i, j), pred) :: constraints, g => do
    let di ← domains[i]?
    let dj ← domains[j]?
    arcLoop domains constraints
      { g with
        arcI := g.arcI ++ [asI32 i]
        arcJ := g.arcJ ++ [asI32 j]
        arcDomILen := g.arcDomILen ++ [asI32 di.length]
        arcDomJLen := g.arcDomJLen ++ [asI32 dj.length]
        arcConstraintOffset := g.arcConstraintOffset ++ [asI32 g.constraintValues.length]
        constraintValues := g.constraintValues ++ matrix di dj pred }

/-- Nothing where an addition overflows or an index is out of bounds. -/
def new (domains : List Domain) (graph : ConstraintGraph) : Option GpuArcConstraints := do
  let domainOffsets ← offsetsLoop domains [0]
  let domainValueOffsets ← offsetsLoop domains [0]
  arcLoop domains graph.constraints
    { arcI := [], arcJ := [], arcDomILen := [], arcDomJLen := [], arcConstraintOffset := []
      domainOffsets := domainOffsets
      domainActive := domains.flatMap fun d => d.map fun _ => 1
      constraintValues := []
      domainValues := domains.flatten
      domainValueOffsets := domainValueOffsets }

/-- The checks of one arc.  Nothing where the code panics. -/
def checkArc (g : GpuArcConstraints) (vars a : Nat) : Option (Except String Unit) := do
  let i ← g.arcI[a]?.map asUsize
  let j ← g.arcJ[a]?.map asUsize
  if i ≥ vars ∨ j ≥ vars then
    pure (.error ("arc " ++ toString a ++ " has invalid variable index"))
  else do
    let di ← g.arcDomILen[a]?.map asUsize
    let dj ← g.arcDomJLen[a]?.map asUsize
    let off ← g.arcConstraintOffset[a]?.map asUsize
    let needed := min (di * dj) 18446744073709551615
    if 18446744073709551616 ≤ off + needed then none
    else if off + needed > g.constraintValues.length then
      pure (.error ("arc " ++ toString a ++ " constraint matrix out of bounds"))
    else do
      let iEnd ← g.domainOffsets[i + 1]?
      let iStart ← g.domainOffsets[i]?
      let iLen ← checkedI32 (iEnd - iStart)
      let jEnd ← g.domainOffsets[j + 1]?
      let jStart ← g.domainOffsets[j]?
      let jLen ← checkedI32 (jEnd - jStart)
      if di ≠ asUsize iLen ∨ dj ≠ asUsize jLen then
        pure (.error ("arc " ++ toString a ++ " domain length mismatch"))
      else pure (.ok ())

def checkArcs (g : GpuArcConstraints) (vars : Nat) : List Nat → Option (Except String Unit)
  | [] => some (.ok ())
  | a :: arcs => do
    match ← checkArc g vars a with
    | .error message => pure (.error message)
    | .ok () => checkArcs g vars arcs

def validate (g : GpuArcConstraints) : Option (Except String Unit) :=
  let vars := g.domainOffsets.length - 1
  let total := asUsize (g.domainOffsets.getLast?.getD 0)
  if g.domainValueOffsets.length ≠ g.domainOffsets.length then
    some (.error "domain_value_offsets length mismatch")
  else if total ≠ g.domainActive.length then some (.error "domain_active length mismatch")
  else if total ≠ g.domainValues.length then some (.error "domain_values length mismatch")
  else if g.arcI.length ≠ g.arcJ.length ∨ g.arcI.length ≠ g.arcDomILen.length ∨
      g.arcI.length ≠ g.arcDomJLen.length ∨ g.arcI.length ≠ g.arcConstraintOffset.length then
    some (.error "arc array length mismatch")
  else checkArcs g vars (List.range g.arcI.length)

/-- The active values from position `idx` on. -/
def collect (g : GpuArcConstraints) : Nat → Nat → Option Domain
  | 0, _ => some []
  | count + 1, idx => do
    let active ← g.domainActive[idx]?
    if active ≠ 0 then do
      let value ← g.domainValues[idx]?
      let rest ← collect g count (idx + 1)
      pure (value :: rest)
    else collect g count (idx + 1)

def toDomains (g : GpuArcConstraints) : Option (List Domain) :=
  (List.range (g.domainOffsets.length - 1)).mapM fun i => do
    let start ← g.domainOffsets[i]?.map asUsize
    let stop ← g.domainOffsets[i + 1]?.map asUsize
    collect g (stop - start) start

/-! ### What the arrays are for -/

def cellCount (domains : List Domain) (graph : ConstraintGraph) : Nat :=
  (graph.constraints.map fun c =>
    (domainOf domains c.1.1).length * (domainOf domains c.1.2).length).sum

/-- The arrays are valid and hold the domains, one arc for each constraint, and for each arc
    the values of its predicate, apart from those of the other arcs. -/
structure RoundTrip (domains : List Domain) (graph : ConstraintGraph) (g : GpuArcConstraints) :
    Prop where
  valid : validate g = some (.ok ())
  restores : toDomains g = some domains
  arcs : g.arcI.map asUsize = graph.constraints.map (fun c => c.1.1) ∧
    g.arcJ.map asUsize = graph.constraints.map fun c => c.1.2
  values : ∀ (a : Nat) c off, graph.constraints[a]? = some c →
    g.arcConstraintOffset[a]? = some off →
    ∀ (p q : Nat) x y, (domainOf domains c.1.1)[p]? = some x →
      (domainOf domains c.1.2)[q]? = some y →
      (g.constraintValues[asUsize off + p * (domainOf domains c.1.2).length + q]? = some 1 ↔
        c.2 x y = true)
  disjoint : ∀ (a b : Nat) c off off', a < b → graph.constraints[a]? = some c →
    g.arcConstraintOffset[a]? = some off → g.arcConstraintOffset[b]? = some off' →
    asUsize off + (domainOf domains c.1.1).length * (domainOf domains c.1.2).length ≤
      asUsize off'

/-- The indices below `2 ^ 31`, and those beyond every vector that the cast of a negative `i32`
    gives. -/
def Survives (i : Nat) : Prop := i < 2 ^ 31 ∨ (2 ^ 64 - 2 ^ 31 ≤ i ∧ i < 2 ^ 64)

theorem asI32_of_lt {n : Nat} (h : n < 2 ^ 31) : asI32 n = n := by
  unfold asI32
  simp only [Int.bmod_def]
  split
  · omega
  · omega

theorem asUsize_natCast {n : Nat} (h : n < 2 ^ 31) : asUsize n = n := by
  rw [asUsize]
  omega

theorem asUsize_asI32 {n : Nat} (h : n < 2 ^ 31) : asUsize (asI32 n) = n := by
  rw [asI32_of_lt h, asUsize_natCast h]

theorem survives_iff (i : Nat) : asUsize (asI32 i) = i ↔ Survives i := by
  unfold asUsize asI32 Survives
  simp only [Int.bmod_def]
  split
  · omega
  · omega

theorem checkedI32_eq {n : Nat} (h : n < 2 ^ 31) : checkedI32 n = some (n : Int) := by
  rw [checkedI32, if_pos (by omega)]

/-! ### The arrays in closed form -/

section Layout

variable {domains : List Domain} {graph : ConstraintGraph} {i : Nat}

def matrixOf (domains : List Domain) (c : (Nat × Nat) × ConstraintFn) : List UInt8 :=
  matrix (domainOf domains c.1.1) (domainOf domains c.1.2) c.2

def matrices (domains : List Domain) (graph : ConstraintGraph) : List (List UInt8) :=
  graph.constraints.map (matrixOf domains)

def layout (domains : List Domain) (graph : ConstraintGraph) : GpuArcConstraints where
  arcI := graph.constraints.map fun c => asI32 c.1.1
  arcJ := graph.constraints.map fun c => asI32 c.1.2
  arcDomILen := graph.constraints.map fun c => asI32 (domainOf domains c.1.1).length
  arcDomJLen := graph.constraints.map fun c => asI32 (domainOf domains c.1.2).length
  arcConstraintOffset :=
    (List.range graph.constraints.length).map fun a => asI32 (offset (matrices domains graph) a)
  domainOffsets := (List.range (domains.length + 1)).map fun k => (offset domains k : Int)
  domainActive := domains.flatMap fun d => d.map fun _ => 1
  constraintValues := (matrices domains graph).flatten
  domainValues := domains.flatten
  domainValueOffsets := (List.range (domains.length + 1)).map fun k => (offset domains k : Int)

theorem size_eq : size domains = domains.flatten.length := List.length_flatten.symm

theorem length_matrix (di dj : Domain) (pred : ConstraintFn) :
    (matrix di dj pred).length = di.length * dj.length := by
  induction di with
  | nil => simp [matrix]
  | cons x di ih =>
    rw [matrix, List.flatMap_cons, List.length_append, List.length_map, List.length_cons,
      Nat.succ_mul, Nat.add_comm]
    exact congrArg (· + dj.length) ih

theorem getElem?_matrix {di dj : Domain} (pred : ConstraintFn) {p q : Nat} {x y : Int32}
    (hp : di[p]? = some x) (hq : dj[q]? = some y) :
    (matrix di dj pred)[p * dj.length + q]? = some (if pred x y then 1 else 0) := by
  obtain ⟨hlt, -⟩ := List.getElem?_eq_some_iff.mp hp
  obtain ⟨hq', -⟩ := List.getElem?_eq_some_iff.mp hq
  have hrow : (di.map fun x => dj.map fun y => if pred x y then (1 : UInt8) else 0)[p]? =
      some (dj.map fun y => if pred x y then 1 else 0) := by
    rw [List.getElem?_map, hp]
    rfl
  have hoffset : offset (di.map fun x => dj.map fun y => if pred x y then (1 : UInt8) else 0) p =
      p * dj.length := by
    apply offset_const
    · intro row hmem
      obtain ⟨x, -, rfl⟩ := List.mem_map.mp hmem
      exact List.length_map ..
    · rw [List.length_map]
      omega
  rw [matrix, List.flatMap_def, ← hoffset,
    getElem?_flatten hrow (by rw [List.length_map]; exact hq'), List.getElem?_map, hq]
  rfl

theorem cellCount_eq : cellCount domains graph = (matrices domains graph).flatten.length := by
  rw [cellCount, List.length_flatten, matrices, List.map_map]
  congr 1
  apply List.map_congr_left
  intro c _
  exact (length_matrix _ _ _).symm

theorem length_le_size {d : Domain} (h : domains[i]? = some d) : d.length ≤ size domains := by
  have hsucc := offset_succ h
  have hle := offset_le_length domains (i + 1)
  rw [size_eq]
  omega

theorem offsetsLoop_eq (hsize : size domains < 2 ^ 31) (rest : List Domain) :
    ∀ {n : Nat}, n + rest.length = domains.length → domains.drop n = rest →
      offsetsLoop rest ((List.range (n + 1)).map fun k => (offset domains k : Int)) =
        some ((List.range (domains.length + 1)).map fun k => (offset domains k : Int)) := by
  induction rest with
  | nil =>
    intro n hn _
    rw [List.length_nil, Nat.add_zero] at hn
    rw [offsetsLoop, hn]
  | cons d rest ih =>
    intro n hn hdrop
    have hget : domains[n]? = some d := by
      have hhead := congrArg (·[0]?) hdrop
      rw [List.getElem?_drop] at hhead
      exact hhead
    have hlast : (((List.range (n + 1)).map fun k => (offset domains k : Int)).getLast?).getD 0 =
        offset domains n := by
      rw [List.range_succ, List.map_append, List.map_singleton, List.getLast?_concat]
      rfl
    have hnext : checkedI32 (offset domains n + asI32 d.length) =
        some (offset domains (n + 1) : Int) := by
      have hlength := length_le_size hget
      have htotal := offset_le_length domains (n + 1)
      rw [← size_eq] at htotal
      rw [asI32_of_lt (by omega), offset_succ hget]
      exact checkedI32_eq (n := offset domains n + d.length)
        (by rw [← offset_succ hget]; omega)
    rw [offsetsLoop, hlast, hnext, Option.bind_eq_bind, Option.bind_some]
    have hmore : ((List.range (n + 1)).map fun k => (offset domains k : Int)) ++
        [(offset domains (n + 1) : Int)] =
        (List.range (n + 1 + 1)).map fun k => (offset domains k : Int) := by
      rw [List.range_succ (n := n + 1), List.map_append, List.map_singleton]
    rw [hmore]
    apply ih
    · rw [List.length_cons] at hn
      omega
    · rw [← List.drop_drop, hdrop]
      rfl

theorem getElem?_domainOf (hi : i < domains.length) :
    domains[i]? = some (domainOf domains i) := by
  rw [domainOf_of_eq (List.getElem?_eq_getElem hi), List.getElem?_eq_getElem hi]

/-- The arrays after the first constraints. -/
def built (domains : List Domain) (graph : ConstraintGraph) (n : Nat) : GpuArcConstraints :=
  { layout domains graph with
    arcI := (graph.constraints.take n).map fun c => asI32 c.1.1
    arcJ := (graph.constraints.take n).map fun c => asI32 c.1.2
    arcDomILen := (graph.constraints.take n).map fun c => asI32 (domainOf domains c.1.1).length
    arcDomJLen := (graph.constraints.take n).map fun c => asI32 (domainOf domains c.1.2).length
    arcConstraintOffset := (List.range n).map fun a => asI32 (offset (matrices domains graph) a)
    constraintValues := ((matrices domains graph).take n).flatten }

theorem arcLoop_eq (hrange : Ac3.InRange domains graph)
    (rest : List ((Nat × Nat) × ConstraintFn)) :
    ∀ {n : Nat}, n + rest.length = graph.constraints.length →
      graph.constraints.drop n = rest →
      arcLoop domains rest (built domains graph n) = some (layout domains graph) := by
  induction rest with
  | nil =>
    intro n hn _
    rw [List.length_nil, Nat.add_zero] at hn
    have hall : (matrices domains graph).take n = matrices domains graph := by
      apply List.take_of_length_le
      rw [matrices, List.length_map]
      omega
    rw [arcLoop, built, hall, hn, List.take_length]
    rfl
  | cons c rest ih =>
    intro n hn hdrop
    obtain ⟨⟨i, j⟩, pred⟩ := c
    have hget : graph.constraints[n]? = some ((i, j), pred) := by
      have hhead := congrArg (·[0]?) hdrop
      rw [List.getElem?_drop] at hhead
      exact hhead
    obtain ⟨hi, hj⟩ := hrange _ (List.mem_of_getElem? hget)
    have hrow : (matrices domains graph)[n]? = some (matrixOf domains ((i, j), pred)) := by
      rw [matrices, List.getElem?_map, hget]
      rfl
    have hnext := @ih (n + 1) (by rw [List.length_cons] at hn; omega) (by
      rw [← List.drop_drop, hdrop]
      rfl)
    have hi' : domains[i]? = some (domainOf domains i) := getElem?_domainOf hi
    have hj' : domains[j]? = some (domainOf domains j) := getElem?_domainOf hj
    rw [arcLoop, hi', hj', Option.bind_eq_bind, Option.bind_some, Option.bind_some, ← hnext]
    congr 1
    unfold built
    simp only [List.take_add_one, hget, hrow, Option.toList_some, List.map_append,
      List.map_singleton, List.range_succ, List.flatten_append, List.flatten_singleton,
      length_flatten_take]
    rfl

theorem new_eq (hsize : size domains < 2 ^ 31) (hrange : Ac3.InRange domains graph) :
    new domains graph = some (layout domains graph) := by
  have hoffsets := offsetsLoop_eq hsize domains (Nat.zero_add _) rfl
  have harcs := arcLoop_eq hrange graph.constraints (Nat.zero_add _) rfl
  rw [show (List.range (0 + 1)).map (fun k => (offset domains k : Int)) = [0] from rfl]
    at hoffsets
  rw [new, hoffsets, Option.bind_eq_bind, Option.bind_some]
  exact harcs

end Layout

/-! ### The checks -/

section Checks

variable {domains : List Domain} {graph : ConstraintGraph} {a i : Nat}
  {c : (Nat × Nat) × ConstraintFn}

theorem domainOffsets_get {k : Nat} (hk : k ≤ domains.length) :
    (layout domains graph).domainOffsets[k]? = some (offset domains k : Int) := by
  show ((List.range (domains.length + 1)).map fun k => (offset domains k : Int))[k]? = _
  rw [List.getElem?_map, List.getElem?_range (by omega)]
  rfl

theorem length_domainOffsets :
    (layout domains graph).domainOffsets.length = domains.length + 1 := by
  show ((List.range (domains.length + 1)).map fun k => (offset domains k : Int)).length = _
  rw [List.length_map, List.length_range]

theorem arcOffset_get (hc : graph.constraints[a]? = some c) :
    (layout domains graph).arcConstraintOffset[a]? =
      some (asI32 (offset (matrices domains graph) a)) := by
  obtain ⟨ha, -⟩ := List.getElem?_eq_some_iff.mp hc
  show ((List.range graph.constraints.length).map fun a =>
    asI32 (offset (matrices domains graph) a))[a]? = _
  rw [List.getElem?_map, List.getElem?_range ha]
  rfl

theorem matrices_get (hc : graph.constraints[a]? = some c) :
    (matrices domains graph)[a]? = some (matrixOf domains c) := by
  rw [matrices, List.getElem?_map, hc]
  rfl

theorem offset_matrices_succ (domains : List Domain) (hc : graph.constraints[a]? = some c) :
    offset (matrices domains graph) (a + 1) = offset (matrices domains graph) a +
      (domainOf domains c.1.1).length * (domainOf domains c.1.2).length := by
  rw [offset_succ (matrices_get hc), matrixOf, length_matrix]

theorem offset_matrices_lt (hcells : cellCount domains graph < 2 ^ 31) (k : Nat) :
    offset (matrices domains graph) k < 2 ^ 31 := by
  have hle := offset_le_length (matrices domains graph) k
  rw [← cellCount_eq] at hle
  omega

/-- The difference of two offsets is the length of the domain between them. -/
theorem length_eq (hsize : size domains < 2 ^ 31) (hi : i < domains.length) :
    checkedI32 ((offset domains (i + 1) : Int) - offset domains i) =
      some ((domainOf domains i).length : Int) := by
  have hget := getElem?_domainOf hi
  have hlength := length_le_size hget
  rw [offset_succ hget]
  have hdifference : ((offset domains i + (domainOf domains i).length : Nat) : Int) -
      offset domains i = ((domainOf domains i).length : Nat) := by omega
  rw [hdifference]
  exact checkedI32_eq (by omega)

theorem checkArc_ok (hsize : size domains < 2 ^ 31) (hrange : Ac3.InRange domains graph)
    (hcells : cellCount domains graph < 2 ^ 31) (hc : graph.constraints[a]? = some c)
    (hi : Survives c.1.1) (hj : Survives c.1.2) :
    checkArc (layout domains graph) domains.length a = some (.ok ()) := by
  obtain ⟨hilt, hjlt⟩ := hrange c (List.mem_of_getElem? hc)
  have hilen := length_le_size (getElem?_domainOf hilt)
  have hjlen := length_le_size (getElem?_domainOf hjlt)
  have hend := offset_matrices_succ domains hc
  have htotal := offset_le_length (matrices domains graph) (a + 1)
  have hbound := offset_matrices_lt hcells (a + 1)
  have hoff := offset_matrices_lt hcells a
  have hreadI : (layout domains graph).arcI[a]? = some (asI32 c.1.1) := by
    show (graph.constraints.map fun c => asI32 c.1.1)[a]? = _
    rw [List.getElem?_map, hc]
    rfl
  have hreadJ : (layout domains graph).arcJ[a]? = some (asI32 c.1.2) := by
    show (graph.constraints.map fun c => asI32 c.1.2)[a]? = _
    rw [List.getElem?_map, hc]
    rfl
  have hreadILen : (layout domains graph).arcDomILen[a]? =
      some (asI32 (domainOf domains c.1.1).length) := by
    show (graph.constraints.map fun c => asI32 (domainOf domains c.1.1).length)[a]? = _
    rw [List.getElem?_map, hc]
    rfl
  have hreadJLen : (layout domains graph).arcDomJLen[a]? =
      some (asI32 (domainOf domains c.1.2).length) := by
    show (graph.constraints.map fun c => asI32 (domainOf domains c.1.2).length)[a]? = _
    rw [List.getElem?_map, hc]
    rfl
  have hvalues : (layout domains graph).constraintValues.length =
      (matrices domains graph).flatten.length := rfl
  have hneeded : min ((domainOf domains c.1.1).length * (domainOf domains c.1.2).length)
      18446744073709551615 = (domainOf domains c.1.1).length * (domainOf domains c.1.2).length := by
    omega
  rw [checkArc, hreadI, hreadJ]
  simp only [Option.map_some, Option.bind_eq_bind, Option.bind_some, (survives_iff _).mpr hi,
    (survives_iff _).mpr hj]
  rw [if_neg (by omega), hreadILen, hreadJLen, arcOffset_get hc, Option.map_some, Option.map_some,
    Option.map_some, Option.bind_some, Option.bind_some, Option.bind_some]
  have hdi : asUsize (asI32 (domainOf domains c.1.1).length) = (domainOf domains c.1.1).length :=
    asUsize_asI32 (by omega)
  have hdj : asUsize (asI32 (domainOf domains c.1.2).length) = (domainOf domains c.1.2).length :=
    asUsize_asI32 (by omega)
  rw [hdi, hdj, asUsize_asI32 hoff, hneeded,
    if_neg (by omega), if_neg (by omega), domainOffsets_get hilt,
    domainOffsets_get (Nat.le_of_lt hilt), domainOffsets_get hjlt,
    domainOffsets_get (Nat.le_of_lt hjlt)]
  simp only [Option.bind_some]
  rw [length_eq hsize hilt, length_eq hsize hjlt]
  simp only [Option.bind_some]
  rw [asUsize_natCast (by omega), asUsize_natCast (by omega), if_neg (by simp)]
  rfl

theorem checkArcs_ok {g : GpuArcConstraints} {vars : Nat} {arcs : List Nat}
    (h : ∀ a ∈ arcs, checkArc g vars a = some (.ok ())) :
      checkArcs g vars arcs = some (.ok ()) := by
  induction arcs with
  | nil => rfl
  | cons a arcs ih =>
    rw [checkArcs, h a List.mem_cons_self, Option.bind_eq_bind, Option.bind_some]
    exact ih fun b hb => h b (List.mem_cons_of_mem a hb)

theorem length_active : (layout domains graph).domainActive.length = size domains := by
  show (domains.flatMap fun d => d.map fun _ => (1 : Int)).length = _
  rw [List.length_flatMap, size]
  simp only [List.length_map]

theorem validate_ok (hsize : size domains < 2 ^ 31) (hrange : Ac3.InRange domains graph)
    (hcells : cellCount domains graph < 2 ^ 31)
    (hsurvive : ∀ c ∈ graph.constraints, Survives c.1.1 ∧ Survives c.1.2) :
    validate (layout domains graph) = some (.ok ()) := by
  have hlast : (layout domains graph).domainOffsets.getLast?.getD 0 = (size domains : Int) := by
    show (((List.range (domains.length + 1)).map fun k => (offset domains k : Int)).getLast?).getD
      0 = _
    rw [List.range_succ, List.map_append, List.map_singleton, List.getLast?_concat, size_eq,
      ← offset_length]
    rfl
  have hvalues : (layout domains graph).domainValues.length = size domains := size_eq.symm
  have hlengths : (layout domains graph).arcI.length = graph.constraints.length :=
    List.length_map ..
  have harcs : ¬ ((layout domains graph).arcI.length ≠ (layout domains graph).arcJ.length ∨
      (layout domains graph).arcI.length ≠ (layout domains graph).arcDomILen.length ∨
      (layout domains graph).arcI.length ≠ (layout domains graph).arcDomJLen.length ∨
      (layout domains graph).arcI.length ≠ (layout domains graph).arcConstraintOffset.length) := by
    simp [layout]
  have hstarts : ¬ (layout domains graph).domainValueOffsets.length ≠ domains.length + 1 := by
    simp [layout]
  rw [validate]
  simp only [hlast, asUsize_natCast hsize, length_active, hvalues, length_domainOffsets,
    if_neg harcs, if_neg hstarts, ne_eq, not_true_eq_false, if_false]
  rw [hlengths, Nat.add_sub_cancel]
  · apply checkArcs_ok
    intro a ha
    have hc := List.getElem?_eq_getElem (List.mem_range.mp ha)
    obtain ⟨hi, hj⟩ := hsurvive _ (List.getElem_mem (List.mem_range.mp ha))
    exact checkArc_ok hsize hrange hcells hc hi hj

end Checks

/-! ### The domains again -/

section Domains

variable {domains : List Domain} {graph : ConstraintGraph} {i : Nat}

theorem collect_eq {g : GpuArcConstraints}
    (hactive : ∀ idx < g.domainValues.length, g.domainActive[idx]? = some 1) (count : Nat) :
    ∀ {idx : Nat}, idx + count ≤ g.domainValues.length →
      collect g count idx = some ((g.domainValues.drop idx).take count) := by
  induction count with
  | zero =>
    intro idx _
    rfl
  | succ count ih =>
    intro idx hle
    have hget := List.getElem?_eq_getElem (show idx < g.domainValues.length by omega)
    rw [collect, hactive idx (by omega), Option.bind_eq_bind, Option.bind_some,
      if_pos (by decide), hget, Option.bind_eq_bind, Option.bind_some,
      ih (show idx + 1 + count ≤ _ by omega),
      List.drop_eq_getElem_cons (show idx < g.domainValues.length by omega), List.take_succ_cons]
    rfl

theorem active_get {idx : Nat} (hidx : idx < (layout domains graph).domainValues.length) :
    (layout domains graph).domainActive[idx]? = some 1 := by
  have hlt : idx < (layout domains graph).domainActive.length := by
    rw [length_active, size_eq]
    exact hidx
  rw [List.getElem?_eq_getElem hlt]
  have hmem := List.getElem_mem hlt
  obtain ⟨d, -, hd⟩ := List.mem_flatMap.mp
    (show _ ∈ domains.flatMap fun d => d.map fun _ => (1 : Int) from hmem)
  obtain ⟨_, -, hone⟩ := List.mem_map.mp hd
  rw [← hone]

theorem mapM_eq {f : Nat → Option Domain} {g : Nat → Domain} {indices : List Nat}
    (h : ∀ i ∈ indices, f i = some (g i)) : indices.mapM f = some (indices.map g) := by
  induction indices with
  | nil => rfl
  | cons i indices ih =>
    rw [List.mapM_cons, h i List.mem_cons_self, ih fun k hk => h k (List.mem_cons_of_mem i hk)]
    rfl

theorem map_domainOf : (List.range domains.length).map (domainOf domains) = domains := by
  apply List.ext_getElem?
  intro i
  by_cases hi : i < domains.length
  · rw [List.getElem?_map, List.getElem?_range hi, getElem?_domainOf hi]
    rfl
  · rw [List.getElem?_eq_none (by rw [List.length_map, List.length_range]; omega),
      List.getElem?_eq_none (by omega)]

theorem toDomains_eq (hsize : size domains < 2 ^ 31) :
    toDomains (layout domains graph) = some domains := by
  have hone : ∀ i < domains.length, (do
      let start ← (layout domains graph).domainOffsets[i]?.map asUsize
      let stop ← (layout domains graph).domainOffsets[i + 1]?.map asUsize
      collect (layout domains graph) (stop - start) start) = some (domainOf domains i) := by
    intro i hi
    have hget := getElem?_domainOf hi
    have hle := offset_le_length domains (i + 1)
    have hsucc := offset_succ hget
    have hlt : offset domains (i + 1) < 2 ^ 31 := by
      rw [← size_eq] at hle
      omega
    rw [domainOffsets_get (Nat.le_of_lt hi), domainOffsets_get hi]
    simp only [Option.map_some, Option.bind_eq_bind, Option.bind_some]
    rw [asUsize_natCast hlt, asUsize_natCast (by omega), hsucc, Nat.add_sub_cancel_left,
      collect_eq (fun idx hidx => active_get hidx) _ (by
        show _ ≤ domains.flatten.length
        omega)]
    exact congrArg some (slice_flatten hget)
  rw [toDomains, length_domainOffsets, Nat.add_sub_cancel,
    mapM_eq fun i hi => hone i (List.mem_range.mp hi), map_domainOf]

end Domains

/-! ### The round trip -/

section RoundTrip

variable {domains : List Domain} {graph : ConstraintGraph}

theorem one_iff (b : Bool) : (some (if b then 1 else 0) = some (1 : UInt8)) ↔ b = true := by
  cases b with
  | false => decide
  | true => decide

theorem layout_values {a off : Nat} {c : (Nat × Nat) × ConstraintFn}
    (hc : graph.constraints[a]? = some c) (hoff : off = offset (matrices domains graph) a)
    {p q : Nat} {x y : Int32}
    (hp : (domainOf domains c.1.1)[p]? = some x) (hq : (domainOf domains c.1.2)[q]? = some y) :
    (layout domains graph).constraintValues[off + p * (domainOf domains c.1.2).length + q]? =
        some 1 ↔ c.2 x y = true := by
  have hentry := getElem?_matrix c.2 hp hq
  obtain ⟨hinside, -⟩ := List.getElem?_eq_some_iff.mp hentry
  show (matrices domains graph).flatten[_]? = _ ↔ _
  rw [hoff, Nat.add_assoc, getElem?_flatten (matrices_get hc) hinside]
  show (matrix _ _ _)[_]? = _ ↔ _
  rw [hentry]
  exact one_iff _

theorem layout_roundTrip (hsize : size domains < 2 ^ 31) (hrange : Ac3.InRange domains graph)
    (hcells : cellCount domains graph < 2 ^ 31)
    (hsurvive : ∀ c ∈ graph.constraints, Survives c.1.1 ∧ Survives c.1.2) :
    RoundTrip domains graph (layout domains graph) where
  valid := validate_ok hsize hrange hcells hsurvive
  restores := toDomains_eq hsize
  arcs := by
    constructor
    · show (graph.constraints.map fun c => asI32 c.1.1).map asUsize = _
      rw [List.map_map]
      apply List.map_congr_left
      intro c hc
      rw [Function.comp_apply]
      exact (survives_iff _).mpr (hsurvive c hc).1
    · show (graph.constraints.map fun c => asI32 c.1.2).map asUsize = _
      rw [List.map_map]
      apply List.map_congr_left
      intro c hc
      rw [Function.comp_apply]
      exact (survives_iff _).mpr (hsurvive c hc).2
  values := by
    intro a c off hc hoff p q x y hp hq
    rw [arcOffset_get hc] at hoff
    have hback : asUsize off = offset (matrices domains graph) a := by
      rw [← Option.some.inj hoff, asUsize_asI32 (offset_matrices_lt hcells a)]
    exact layout_values hc hback hp hq
  disjoint := by
    intro a b c off off' hlt hc hoff hoff'
    have hb : b < graph.constraints.length := by
      have hsome := (List.getElem?_eq_some_iff.mp hoff').1
      rw [show (layout domains graph).arcConstraintOffset.length = graph.constraints.length by
        simp [layout]] at hsome
      exact hsome
    rw [arcOffset_get hc] at hoff
    rw [arcOffset_get (List.getElem?_eq_getElem hb)] at hoff'
    rw [← Option.some.inj hoff, ← Option.some.inj hoff',
      asUsize_asI32 (offset_matrices_lt hcells a), asUsize_asI32 (offset_matrices_lt hcells b),
      ← offset_matrices_succ domains hc]
    exact offset_mono hlt

theorem survives_of_roundTrip (hsize : size domains < 2 ^ 31) (hrange : Ac3.InRange domains graph)
    {g : GpuArcConstraints} (hnew : new domains graph = some g)
    (htrip : RoundTrip domains graph g) :
    ∀ c ∈ graph.constraints, Survives c.1.1 ∧ Survives c.1.2 := by
  intro c hc
  rw [new_eq hsize hrange] at hnew
  rw [← Option.some.inj hnew] at htrip
  obtain ⟨a, ha⟩ := List.getElem?_of_mem hc
  have hi := congrArg (·[a]?) htrip.arcs.1
  have hj := congrArg (·[a]?) htrip.arcs.2
  simp only [layout, List.getElem?_map, ha, Option.map_some, Option.some.injEq] at hi hj
  exact ⟨(survives_iff _).mp hi, (survives_iff _).mp hj⟩

/-- The arrays hold the domains and the constraints exactly when the cast to `i32` keeps the
    index of every variable with a constraint. -/
theorem new_round_trip (hsize : size domains < 2 ^ 31) (hrange : Ac3.InRange domains graph)
    (hcells : cellCount domains graph < 2 ^ 31) :
    (∃ g, new domains graph = some g ∧ RoundTrip domains graph g) ↔
      ∀ c ∈ graph.constraints, Survives c.1.1 ∧ Survives c.1.2 := by
  constructor
  · intro ⟨g, hnew, htrip⟩
    exact survives_of_roundTrip hsize hrange hnew htrip
  · intro hsurvive
    exact ⟨_, new_eq hsize hrange, layout_roundTrip hsize hrange hcells hsurvive⟩

end RoundTrip

def raggedGraph : ConstraintGraph := ⟨[((0, 2), fun x y => decide (x < y))], by decide⟩

theorem new_round_trip_ragged :
    ∃ g, new [[1, 2], [], [3]] raggedGraph = some g ∧ RoundTrip [[1, 2], [], [3]] raggedGraph g :=
  (new_round_trip (by decide) (by unfold Ac3.InRange raggedGraph; decide)
    (by unfold cellCount raggedGraph; decide)).mpr
    (by simp [raggedGraph, Survives])

/-- One constraint, of a variable with itself, that is beyond the range of `i32`. -/
def farGraph (n : Nat) : ConstraintGraph := ⟨[((n, n), fun _ _ => true)], by simp⟩

theorem size_replicate (n : Nat) : size (List.replicate n []) = 0 := by
  rw [size, List.map_replicate, List.sum_replicate_nat]
  exact Nat.mul_zero n

theorem domainOf_replicate (n k : Nat) : domainOf (List.replicate n []) k = [] := by
  rw [domainOf, List.getD_eq_getElem?_getD, List.getElem?_replicate]
  split
  · rfl
  · rfl

theorem cellCount_far (n : Nat) :
    cellCount (List.replicate (n + 1) []) (farGraph n) = 0 := by
  rw [cellCount, farGraph, List.map_singleton, domainOf_replicate]
  rfl

theorem far_inRange (n : Nat) : Ac3.InRange (List.replicate (n + 1) []) (farGraph n) := by
  intro c hc
  rw [List.mem_singleton.mp hc, List.length_replicate]
  exact ⟨Nat.lt_succ_self n, Nat.lt_succ_self n⟩

theorem not_survives : ¬ Survives (2 ^ 31) := by
  unfold Survives
  omega

theorem far_index_lost : ¬ ∀ (domains : List Domain) (graph : ConstraintGraph),
    size domains < 2 ^ 31 → Ac3.InRange domains graph → cellCount domains graph < 2 ^ 31 →
      ∃ g, new domains graph = some g ∧ RoundTrip domains graph g := by
  intro h
  have hsize : size (List.replicate (2 ^ 31 + 1) []) < 2 ^ 31 := by
    rw [size_replicate]
    omega
  obtain ⟨g, hnew, htrip⟩ := h _ (farGraph (2 ^ 31)) hsize (far_inRange _)
    (by rw [cellCount_far]; omega)
  have hboth := survives_of_roundTrip hsize (far_inRange _) hnew htrip _ (List.mem_singleton_self _)
  exact not_survives hboth.1

end Canon.Algorithms.GpuLayout
