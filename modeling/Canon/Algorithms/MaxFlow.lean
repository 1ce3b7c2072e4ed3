import Canon.Lib.PushRelabel
import Mathlib.Algebra.BigOperators.Fin
import Mathlib.Algebra.BigOperators.Intervals

/-! # Maximum flow

    `max_flow_push_relabel` of `graph/max_flow.rs`.  The vectors have a place for each of the
    `n` vertices, so that a vertex is a `Fin n`; an addition that overflows and a position
    that a row does not have are panics, `none` here.

    * `addEdge`, `buildGraph`, `saturateSource`: the graph and the first pushes,
    * `pushEdges`, `relabel`, `discharge`, `dischargeAll`: the loops,
    * `network`: the graph as halves of edges,
    * `saturateSource_spec`, `pushEdges_spec`, `discharge_spec`, `dischargeAll_spec`: what
      they keep,
    * `max_flow_push_relabel_correct`: the value returned.
-/

namespace Canon.Algorithms.MaxFlow

open PushRelabel Flow

/-! ### Model -/

def i64Max : Nat := 2 ^ 63 - 1

def addI64 (a b : Int) : Option Int := if a + b ≤ i64Max then some (a + b) else none

structure Edge (n : Nat) where
  target : Fin n
  rev : Nat
  cap : Int

abbrev Graph (n : Nat) := Fin n → List (Edge n)

/-- A vertex and the position of an edge in its row. -/
abbrev Half (n : Nat) := (_ : Fin n) × Nat

/-- Start, end and capacity, as they are passed in. -/
abbrev InputEdge := Nat × Nat × Int

section Model

variable {n : Nat}

def addEdge (g : Graph n) (u v : Fin n) (cap : Int) : Graph n :=
  let revU := (g v).length
  let revV := (g u).length
  let g := Function.update g u (g u ++ [⟨v, revU, cap⟩])
  Function.update g v (g v ++ [⟨u, revV, 0⟩])

def addInput (g : Graph n) (e : InputEdge) : Graph n :=
  if h : e.1 < n ∧ e.2.1 < n ∧ 0 < e.2.2 then addEdge g ⟨e.1, h.1⟩ ⟨e.2.1, h.2.1⟩ e.2.2
  else g

def buildGraph (n : Nat) (edges : List InputEdge) : Graph n := edges.foldl addInput fun _ => []

def edgeAt (g : Graph n) (p : Half n) : Option (Edge n) := (g p.1)[p.2]?

def setCap (g : Graph n) (p : Half n) (cap : Int) : Graph n :=
  Function.update g p.1 ((g p.1).modify p.2 fun e => { e with cap := cap })

def addCap (g : Graph n) (p : Half n) (delta : Int) : Option (Graph n) := do
  let e ← edgeAt g p
  let cap ← addI64 e.cap delta
  some (setCap g p cap)

/-- The pushes along the edges of the source. -/
def saturateSource (source : Fin n) :
    Nat → Nat → Graph n → (Fin n → Int) → Option (Graph n × (Fin n → Int))
  | 0, _, g, excess => some (g, excess)
  | count + 1, i, g, excess => do
    let e ← edgeAt g ⟨source, i⟩
    if 0 < e.cap then
      let g := setCap g ⟨source, i⟩ 0
      let g ← addCap g ⟨e.target, e.rev⟩ e.cap
      let x ← addI64 (excess e.target) e.cap
      saturateSource source count (i + 1) g (Function.update excess e.target x)
    else saturateSource source count (i + 1) g excess

structure State (n : Nat) where
  g : Graph n
  height : Fin n → Nat
  excess : Fin n → Int
  active : List (Fin n)

/-- A push along the edge `e`, which is the `i`th of `u`. -/
def push (source sink u : Fin n) (i : Nat) (e : Edge n) (st : State n) : Option (State n) := do
  let delta := min (st.excess u) e.cap
  let g := setCap st.g ⟨u, i⟩ (e.cap - delta)
  let g ← addCap g ⟨e.target, e.rev⟩ delta
  let excess := Function.update st.excess u (st.excess u - delta)
  let x ← addI64 (excess e.target) delta
  let excess := Function.update excess e.target x
  let active :=
    if e.target ≠ source ∧ e.target ≠ sink ∧ x = delta then st.active ++ [e.target]
    else st.active
  some { st with g, excess, active }

/-- The loop over the edges of `u`, with whether it ended by using up the excess. -/
def pushEdges (source sink u : Fin n) : Nat → Nat → State n → Option (State n × Bool)
  | 0, _, st => some (st, false)
  | count + 1, i, st => do
    let e ← edgeAt st.g ⟨u, i⟩
    if 0 < e.cap ∧ st.height u = st.height e.target + 1 then
      let st ← push source sink u i e st
      if st.excess u = 0 then some (st, true)
      else pushEdges source sink u count (i + 1) st
    else pushEdges source sink u count (i + 1) st

/-- No height reaches the `usize::MAX` from which the minimum starts. -/
def relabel (u : Fin n) (st : State n) : State n :=
  match (((st.g u).filter (0 < ·.cap)).map (st.height ·.target)).min? with
  | none => st
  | some minH => { st with height := Function.update st.height u (minH + 1) }

/-- Nothing also when the fuel is spent. -/
def discharge (source sink u : Fin n) : Nat → State n → Option (State n)
  | 0, _ => none
  | fuel + 1, st =>
    if 0 < st.excess u then do
      let (st, pushed) ← pushEdges source sink u (st.g u).length 0 st
      if pushed ∧ st.excess u = 0 then some st
      else discharge source sink u fuel (relabel u st)
    else some st

def dischargeAll (source sink : Fin n) (turns : Nat) : Nat → State n → Option (State n)
  | 0, _ => none
  | fuel + 1, st =>
    match st.active with
    | [] => some st
    | u :: active => do
      let st ← discharge source sink u turns { st with active }
      dischargeAll source sink turns fuel st

/-- More than the pushes and relabels of any run. -/
def turns (n : Nat) : Nat :=
  2 * n * n * (n * (i64Max * (2 * n)) + 1) + n * (i64Max * (2 * n)) + 1

def run (edges : List InputEdge) (source sink : Fin n) : Option Int := do
  let g := buildGraph n edges
  let (g, excess) ← saturateSource source (g source).length 0 g fun _ => 0
  let height := Function.update (fun _ => 0) source n
  let active := (List.finRange n).filter fun v => v ≠ source ∧ v ≠ sink ∧ 0 < excess v
  let st ← dischargeAll source sink (turns n) (turns n) { g, height, excess, active }
  some (st.excess sink)

def maxFlowPushRelabel (nodeCount : Nat) (edges : List InputEdge) (source sink : Nat) :
    Option Int :=
  if h : nodeCount = 0 ∨ nodeCount ≤ source ∨ nodeCount ≤ sink ∨ source = sink then some 0
  else run edges (⟨source, by omega⟩ : Fin nodeCount) ⟨sink, by omega⟩

end Model

/-! ### Rows -/

section Rows

variable {n : Nat} {g g' : Graph n} {p q : Half n} {e : Edge n}

def capOf (g : Graph n) (p : Half n) : Int := (edgeAt g p).elim 0 (·.cap)

theorem capOf_eq (h : edgeAt g p = some e) : capOf g p = e.cap := by
  unfold capOf
  rw [h]
  rfl

theorem edgeAt_setCap (c : Int) : edgeAt (setCap g p c) q =
    if q = p then (edgeAt g p).map fun e => { e with cap := c } else edgeAt g q := by
  obtain ⟨u, i⟩ := p
  obtain ⟨v, j⟩ := q
  unfold edgeAt setCap
  by_cases hv : v = u
  · subst hv
    simp only [Function.update_self, List.getElem?_modify, Sigma.mk.injEq, heq_eq_eq, true_and]
    by_cases hj : j = i
    · simp [hj]
    · have hji : ¬ i = j := fun h => hj h.symm
      simp [hj, hji]
  · simp [hv]

theorem capOf_setCap (h : edgeAt g p = some e) (c : Int) :
    capOf (setCap g p c) = Function.update (capOf g) p c := by
  funext q
  unfold capOf
  rw [edgeAt_setCap]
  by_cases hq : q = p
  · rw [if_pos hq, h, hq, Function.update_self]
    rfl
  · rw [if_neg hq, Function.update_of_ne hq]

/-- The rows agree but for the capacities. -/
def SameShape (g g' : Graph n) : Prop :=
  ∀ p, (edgeAt g p).map (fun e => (e.target, e.rev)) =
    (edgeAt g' p).map (fun e => (e.target, e.rev))

theorem SameShape.edgeAt (h : SameShape g g') (he : edgeAt g p = some e) :
    ∃ e', MaxFlow.edgeAt g' p = some e' ∧ e'.target = e.target ∧ e'.rev = e.rev := by
  have hp := h p
  rw [he] at hp
  match he' : MaxFlow.edgeAt g' p with
  | none =>
    rw [he'] at hp
    cases hp
  | some e' =>
    rw [he'] at hp
    simp only [Option.map_some, Option.some.injEq, Prod.mk.injEq] at hp
    exact ⟨e', rfl, hp.1.symm, hp.2.symm⟩

theorem SameShape.symm (h : SameShape g g') : SameShape g' g := fun p => (h p).symm

theorem SameShape.setCap (h : SameShape g g') (p : Half n) (c : Int) :
    SameShape (setCap g p c) g' := by
  intro q
  rw [edgeAt_setCap, ← h q]
  by_cases hq : q = p
  · rw [if_pos hq, hq, Option.map_map]
    rfl
  · rw [if_neg hq]

theorem SameShape.length_eq (h : SameShape g g') (u : Fin n) : (g u).length = (g' u).length := by
  have hle : ∀ {g g' : Graph n}, SameShape g g' → (g u).length ≤ (g' u).length := by
    intro g g' h
    have hp := h ⟨u, (g' u).length⟩
    have hnone : MaxFlow.edgeAt g' ⟨u, (g' u).length⟩ = none :=
      List.getElem?_eq_none (le_refl _)
    rw [hnone] at hp
    exact List.getElem?_eq_none_iff.mp (Option.map_eq_none_iff.mp hp)
  exact Nat.le_antisymm (hle h) (hle h.symm)

theorem addCap_eq {delta : Int} (h : edgeAt g p = some e)
    (hfit : e.cap + delta ≤ i64Max) : addCap g p delta = some (setCap g p (e.cap + delta)) := by
  simp [addCap, h, addI64, hfit]

end Rows

/-! ### The graph as a network -/

section Built

variable {n : Nat} {g : Graph n} {p : Half n} {e : Edge n}

/-- The positions of an edge and of its reverse refer to each other; of the two positions of a
    loop, the one with capacity refers to itself. -/
structure WellFormed (g : Graph n) : Prop where
  cap_nonneg : ∀ p e, edgeAt g p = some e → 0 ≤ e.cap
  loop : ∀ p e, edgeAt g p = some e → e.target = p.1 → e.rev = p.2 ∨ e.cap = 0
  mate : ∀ p e, edgeAt g p = some e → e.target ≠ p.1 →
    ∃ e', edgeAt g ⟨e.target, e.rev⟩ = some e' ∧ e'.target = p.1 ∧ e'.rev = p.2

/-- A row that has grown keeps its edges. -/
theorem edgeAt_append (g : Graph n) (u : Fin n) (e : Edge n) (p : Half n) :
    edgeAt (Function.update g u (g u ++ [e])) p =
      if p = ⟨u, (g u).length⟩ then some e else edgeAt g p := by
  obtain ⟨v, j⟩ := p
  unfold edgeAt
  by_cases hv : v = u
  · subst hv
    simp only [Function.update_self, Sigma.mk.injEq, heq_eq_eq, true_and]
    by_cases hj : j = (g v).length
    · simp [hj]
    · rw [if_neg hj]
      by_cases hlt : j < (g v).length
      · rw [List.getElem?_append_left hlt]
      · rw [List.getElem?_eq_none (by simp; omega), List.getElem?_eq_none (by omega)]
  · simp [hv]

theorem edgeAt_addEdge (g : Graph n) (u v : Fin n) (c : Int) (p : Half n) :
    edgeAt (addEdge g u v c) p =
      if p = ⟨v, (Function.update g u (g u ++ [⟨v, (g v).length, c⟩]) v).length⟩ then
        some ⟨u, (g u).length, 0⟩
      else if p = ⟨u, (g u).length⟩ then some ⟨v, (g v).length, c⟩
      else edgeAt g p := by
  unfold addEdge
  simp only [edgeAt_append]

theorem edgeAt_length (g : Graph n) (u : Fin n) : edgeAt g ⟨u, (g u).length⟩ = none :=
  List.getElem?_eq_none (le_refl _)

theorem edgeAt_addEdge_of_some (u v : Fin n) (c : Int) (h : edgeAt g p = some e) :
    edgeAt (addEdge g u v c) p = some e := by
  have hu : p ≠ ⟨u, (g u).length⟩ := by
    rintro rfl
    rw [edgeAt_length] at h
    cases h
  have hgrown : edgeAt (Function.update g u (g u ++ [⟨v, (g v).length, c⟩])) p = some e := by
    rw [edgeAt_append, if_neg hu]
    exact h
  have hv : p ≠ ⟨v, (Function.update g u (g u ++ [⟨v, (g v).length, c⟩]) v).length⟩ := by
    rintro rfl
    rw [edgeAt_length] at hgrown
    cases hgrown
  rw [edgeAt_addEdge, if_neg hv, if_neg hu]
  exact h

theorem wellFormed_addEdge (h : WellFormed g) (u v : Fin n) {c : Int} (hc : 0 < c) :
    WellFormed (addEdge g u v c) := by
  -- an edge is an old one, the new one or its reverse
  have hcases : ∀ p e, edgeAt (addEdge g u v c) p = some e →
      edgeAt g p = some e ∨ p = ⟨u, (g u).length⟩ ∧ e = ⟨v, (g v).length, c⟩ ∨
        p.1 = v ∧ (u ≠ v → p.2 = (g v).length) ∧ e = ⟨u, (g u).length, 0⟩ := by
    intro p e he
    rw [edgeAt_addEdge] at he
    split at he
    next hp =>
      right; right
      subst hp
      refine ⟨rfl, ?_, (Option.some.inj he).symm⟩
      intro hne
      show (Function.update g u _ v).length = _
      rw [Function.update_of_ne hne.symm]
    next =>
      split at he
      next hp => exact .inr (.inl ⟨hp, (Option.some.inj he).symm⟩)
      next => exact .inl he
  constructor
  · intro p e he
    rcases hcases p e he with hold | ⟨_, rfl⟩ | ⟨_, _, rfl⟩
    · exact h.cap_nonneg p e hold
    · exact hc.le
    · exact le_rfl
  · intro p e he hloop
    rcases hcases p e he with hold | ⟨rfl, rfl⟩ | ⟨_, _, rfl⟩
    · exact h.loop p e hold hloop
    · left
      change v = u at hloop
      rw [hloop]
    · exact .inr rfl
  · intro p e he hne
    rcases hcases p e he with hold | ⟨rfl, rfl⟩ | ⟨hp, hlen, rfl⟩
    · obtain ⟨e', he', hmate⟩ := h.mate p e hold hne
      exact ⟨e', edgeAt_addEdge_of_some u v c he', hmate⟩
    · change v ≠ u at hne
      refine ⟨⟨u, (g u).length, 0⟩, ?_, rfl, rfl⟩
      rw [edgeAt_addEdge, if_pos]
      rw [Function.update_of_ne hne]
    · change u ≠ p.1 at hne
      rw [hp] at hne
      refine ⟨⟨v, (g v).length, c⟩, ?_, hp.symm, (hlen hne).symm⟩
      have hfirst : (⟨u, (g u).length⟩ : Half n) ≠
          ⟨v, (Function.update g u (g u ++ [⟨v, (g v).length, c⟩]) v).length⟩ := by
        intro heq
        exact hne (congrArg Sigma.fst heq)
      rw [edgeAt_addEdge, if_neg hfirst, if_pos rfl]

variable (edges : List InputEdge) (F : Fin n → Edge n → Int)

theorem wellFormed_buildGraph : WellFormed (buildGraph n edges) := by
  have hfold : ∀ (g : Graph n), WellFormed g → WellFormed (edges.foldl addInput g) := by
    induction edges with
    | nil => exact fun _ h => h
    | cons e edges ih =>
      intro g h
      apply ih
      unfold addInput
      split
      next hvalid => exact wellFormed_addEdge h _ _ hvalid.2.2
      next => exact h
  apply hfold
  constructor <;> intro p e he <;> cases he

def halves (g : Graph n) : Finset (Half n) :=
  Finset.univ.sigma fun u => Finset.range (g u).length

theorem mem_halves : p ∈ halves g ↔ ∃ e, edgeAt g p = some e := by
  unfold halves
  rw [Finset.mem_sigma, Finset.mem_range]
  constructor
  · intro h
    exact ⟨_, List.getElem?_eq_getElem h.2⟩
  · rintro ⟨e, he⟩
    exact ⟨Finset.mem_univ _, (List.getElem?_eq_some_iff.mp he).1⟩

def headOf (g : Graph n) (p : Half n) : Fin n := (edgeAt g p).elim p.1 (·.target)

theorem headOf_eq (h : edgeAt g p = some e) : headOf g p = e.target := by
  unfold headOf
  rw [h]
  rfl

/-- The positions of a loop are mates of themselves. -/
def mateOf (g : Graph n) (p : Half n) : Half n :=
  (edgeAt g p).elim p fun e => if e.target = p.1 then p else ⟨e.target, e.rev⟩

theorem mateOf_loop (h : edgeAt g p = some e) (hloop : e.target = p.1) : mateOf g p = p := by
  unfold mateOf
  rw [h]
  exact if_pos hloop

theorem mateOf_eq (h : edgeAt g p = some e) (hne : e.target ≠ p.1) :
    mateOf g p = ⟨e.target, e.rev⟩ := by
  unfold mateOf
  rw [h]
  exact if_neg hne

def network (g : Graph n) (h : WellFormed g) : Network (Fin n) (Half n) where
  halves := halves g
  tail := Sigma.fst
  head := headOf g
  mate := mateOf g
  capacity := capOf g
  mate_mem := by
    intro p hp
    obtain ⟨e, he⟩ := mem_halves.mp hp
    by_cases hloop : e.target = p.1
    · rw [mateOf_loop he hloop]
      exact hp
    · rw [mateOf_eq he hloop]
      obtain ⟨e', he', _⟩ := h.mate p e he hloop
      exact mem_halves.mpr ⟨e', he'⟩
  mate_mate := by
    intro p hp
    obtain ⟨e, he⟩ := mem_halves.mp hp
    by_cases hloop : e.target = p.1
    · rw [mateOf_loop he hloop, mateOf_loop he hloop]
    · rw [mateOf_eq he hloop]
      obtain ⟨e', he', htarget, hrev⟩ := h.mate p e he hloop
      have hne : e'.target ≠ e.target := by
        rw [htarget]
        exact fun heq => hloop heq.symm
      rw [mateOf_eq he' hne, htarget, hrev]
  tail_mate := by
    intro p hp
    obtain ⟨e, he⟩ := mem_halves.mp hp
    rw [headOf_eq he]
    by_cases hloop : e.target = p.1
    · rw [mateOf_loop he hloop, hloop]
    · rw [mateOf_eq he hloop]
  mate_loop := by
    intro p hp hloop
    obtain ⟨e, he⟩ := mem_halves.mp hp
    rw [headOf_eq he] at hloop
    exact mateOf_loop he hloop
  capacity_nonneg := by
    intro p hp
    obtain ⟨e, he⟩ := mem_halves.mp hp
    rw [capOf_eq he]
    exact h.cap_nonneg p e he

/-! ### Capacities -/

/-- What the edges that are passed in allow from one vertex to another. -/
def capacity (n : Nat) (edges : List InputEdge) (u v : Fin n) : Int :=
  ((edges.filter fun e => e.1 = (u : Nat) ∧ e.2.1 = (v : Nat) ∧ 0 < e.2.2).map (·.2.2)).sum

def positiveSum : Int :=
  ((edges.filter (0 < ·.2.2)).map (·.2.2)).sum

/-- A sum over the edges of all rows. -/
def rowSum (g : Graph n) : Int := ∑ u, ((g u).map (F u)).sum

theorem sum_row (f : Edge n → Int) (l : List (Edge n)) :
    ∑ i ∈ Finset.range l.length, (l[i]?).elim 0 f = (l.map f).sum := by
  induction l with
  | nil => rfl
  | cons e l ih =>
    rw [List.length_cons, Finset.sum_range_succ', List.map_cons, List.sum_cons, ← ih, add_comm]
    rfl

theorem sum_halves (g : Graph n) :
    ∑ p ∈ halves g, (edgeAt g p).elim 0 (F p.1) = rowSum F g := by
  unfold halves rowSum
  rw [Finset.sum_sigma]
  apply Finset.sum_congr rfl
  intro u _
  exact sum_row (F u) (g u)

theorem rowSum_append (g : Graph n) (u : Fin n) (e : Edge n) :
    rowSum F (Function.update g u (g u ++ [e])) = rowSum F g + F u e := by
  have hrow : ∀ x, ((Function.update g u (g u ++ [e]) x).map (F x)).sum =
      ((g x).map (F x)).sum + if x = u then F u e else 0 := by
    intro x
    by_cases hx : x = u
    · subst hx
      simp
    · simp [hx]
  unfold rowSum
  rw [Finset.sum_congr rfl fun x _ => hrow x, Finset.sum_add_distrib, Finset.sum_ite_eq',
    if_pos (Finset.mem_univ u)]

theorem rowSum_addEdge (g : Graph n) (u v : Fin n) (c : Int) :
    rowSum F (addEdge g u v c) =
      rowSum F g + F u ⟨v, (g v).length, c⟩ + F v ⟨u, (g u).length, 0⟩ := by
  unfold addEdge
  simp only [rowSum_append]

/-- What is counted of each edge, where its reverse counts nothing. -/
theorem rowSum_buildGraph
    (hF : ∀ u e, e.cap = 0 → F u e = 0) (G : InputEdge → Int)
    (hG : ∀ e : InputEdge, ∀ (hu : e.1 < n) (hv : e.2.1 < n) (rev : Nat), 0 < e.2.2 →
      F ⟨e.1, hu⟩ ⟨⟨e.2.1, hv⟩, rev, e.2.2⟩ = G e)
    (edges : List InputEdge) :
    rowSum F (buildGraph n edges) =
      ((edges.filter fun e => e.1 < n ∧ e.2.1 < n ∧ 0 < e.2.2).map G).sum := by
  have hfold : ∀ g : Graph n, rowSum F (edges.foldl addInput g) =
      rowSum F g + ((edges.filter fun e => e.1 < n ∧ e.2.1 < n ∧ 0 < e.2.2).map G).sum := by
    induction edges with
    | nil => simp
    | cons e edges ih =>
      intro g
      rw [List.foldl_cons, ih]
      unfold addInput
      by_cases hvalid : e.1 < n ∧ e.2.1 < n ∧ 0 < e.2.2
      · have hback := hF ⟨e.2.1, hvalid.2.1⟩
          ⟨⟨e.1, hvalid.1⟩, (g ⟨e.1, hvalid.1⟩).length, 0⟩ rfl
        rw [dif_pos hvalid, rowSum_addEdge, hback, hG e _ _ _ hvalid.2.2]
        simp [hvalid, add_assoc]
      · rw [dif_neg hvalid]
        simp [hvalid]
  have hempty : rowSum F (fun _ => []) = 0 := by simp [rowSum]
  unfold buildGraph
  rw [hfold, hempty, zero_add]

/-- What a filter leaves out may as well count nothing. -/
theorem sum_filter_ite (P Q : InputEdge → Prop) [DecidablePred P] [DecidablePred Q]
    (f : InputEdge → Int) (l : List InputEdge) :
    ((l.filter fun e => P e).map fun e => if Q e then f e else 0).sum =
      ((l.filter fun e => P e ∧ Q e).map f).sum := by
  induction l with
  | nil => rfl
  | cons e l ih =>
    by_cases hP : P e
    · by_cases hQ : Q e
      · simp [hP, hQ, ih]
      · simp [hP, hQ, ih]
    · simp [hP, ih]

theorem between_eq (u v : Fin n) :
    (network (buildGraph n edges) (wellFormed_buildGraph edges)).between u v =
      capacity n edges u v := by
  have hrows : (network (buildGraph n edges) (wellFormed_buildGraph edges)).between u v =
      rowSum (fun w (e : Edge n) => if w = u ∧ e.target = v then e.cap else 0)
        (buildGraph n edges) := by
    rw [← sum_halves]
    unfold Network.between
    rw [Finset.sum_filter]
    apply Finset.sum_congr rfl
    intro p hp
    obtain ⟨e, he⟩ := mem_halves.mp hp
    show (if p.1 = u ∧ headOf _ p = v then capOf _ p else 0) = _
    rw [headOf_eq he, capOf_eq he, he]
    rfl
  have hbuilt := rowSum_buildGraph (n := n)
    (fun w (e : Edge n) => if w = u ∧ e.target = v then e.cap else 0)
    (by
      intro w e he
      simp [he])
    (fun e => if e.1 = (u : Nat) ∧ e.2.1 = (v : Nat) then e.2.2 else 0)
    (by
      intro e hu hv rev _
      simp [Fin.ext_iff]) edges
  rw [hrows, hbuilt, sum_filter_ite]
  unfold capacity
  congr 2
  apply List.filter_congr
  intro e _
  have hu := u.isLt
  have hv := v.isLt
  rw [decide_eq_decide]
  constructor
  · rintro ⟨⟨_, _, hpos⟩, hleft, hright⟩
    exact ⟨hleft, hright, hpos⟩
  · rintro ⟨hleft, hright, hpos⟩
    exact ⟨⟨by omega, by omega, hpos⟩, hleft, hright⟩

theorem sum_capOf_le :
    ∑ p ∈ halves (buildGraph n edges), capOf (buildGraph n edges) p ≤ positiveSum edges := by
  have hbuilt := rowSum_buildGraph (n := n) (fun _ (e : Edge n) => e.cap)
    (fun _ _ he => he) (·.2.2) (fun _ _ _ _ _ => rfl) edges
  have hrows := sum_halves (fun _ (e : Edge n) => e.cap) (buildGraph n edges)
  have hsum : ∑ p ∈ halves (buildGraph n edges), capOf (buildGraph n edges) p =
      rowSum (fun _ (e : Edge n) => e.cap) (buildGraph n edges) := hrows
  rw [hsum, hbuilt]
  unfold positiveSum
  apply List.Sublist.sum_le_sum
  · apply List.Sublist.map
    apply List.monotone_filter_right
    intro e he
    exact decide_eq_true (of_decide_eq_true he).2.2
  · intro c hc
    obtain ⟨e, he, rfl⟩ := List.mem_map.mp hc
    exact (of_decide_eq_true (List.mem_filter.mp he).2).le

end Built

/-! ### The pushes of the source -/

section Saturate

variable {n : Nat} {g g₀ : Graph n} {h₀ : WellFormed g₀} {p : Half n} {e : Edge n}
  {source : Fin n} {excess : Fin n → Int}

theorem SameShape.mem_halves (h : SameShape g g₀) (h₀ : WellFormed g₀)
    (he : MaxFlow.edgeAt g p = some e) :
    p ∈ (network g₀ h₀).halves := by
  obtain ⟨e', he', _⟩ := h.edgeAt he
  exact MaxFlow.mem_halves.mpr ⟨e', he'⟩

theorem SameShape.head_eq (h : SameShape g g₀) (h₀ : WellFormed g₀)
    (he : MaxFlow.edgeAt g p = some e) :
    (network g₀ h₀).head p = e.target := by
  obtain ⟨e', he', htarget, _⟩ := h.edgeAt he
  exact (headOf_eq he').trans htarget

theorem SameShape.mate_eq (h : SameShape g g₀) (h₀ : WellFormed g₀)
    (he : MaxFlow.edgeAt g p = some e) (hne : e.target ≠ p.1) :
    (network g₀ h₀).mate p = ⟨e.target, e.rev⟩ := by
  obtain ⟨e', he', htarget, hrev⟩ := h.edgeAt he
  rw [← htarget] at hne
  show mateOf g₀ p = _
  rw [mateOf_eq he' hne, htarget, hrev]

/-- The two assignments of a push. -/
theorem SameShape.push (h : SameShape g g₀) (h₀ : WellFormed g₀)
    (he : MaxFlow.edgeAt g p = some e) (hne : e.target ≠ p.1) {delta : Int}
    (hfit : capOf g ((network g₀ h₀).mate p) + delta ≤ i64Max) :
    ∃ g', addCap (MaxFlow.setCap g p (e.cap - delta)) ⟨e.target, e.rev⟩ delta = some g' ∧
      SameShape g' g₀ ∧ capOf g' = pushCap (network g₀ h₀) (capOf g) p delta := by
  have hmate := h.mate_eq h₀ he hne
  have hother : (⟨e.target, e.rev⟩ : Half n) ≠ p := fun heq => hne (congrArg Sigma.fst heq)
  obtain ⟨e₀, he₀⟩ := MaxFlow.mem_halves.mp
    ((network g₀ h₀).mate_mem p (h.mem_halves h₀ he))
  obtain ⟨e', he', _⟩ := h.symm.edgeAt he₀
  rw [hmate] at he' hfit
  rw [capOf_eq he'] at hfit
  have hback : MaxFlow.edgeAt (MaxFlow.setCap g p (e.cap - delta)) ⟨e.target, e.rev⟩ =
      some e' := by
    rw [edgeAt_setCap, if_neg hother]
    exact he'
  refine ⟨_, addCap_eq hback hfit, (h.setCap _ _).setCap _ _, ?_⟩
  unfold pushCap
  rw [capOf_setCap hback, capOf_setCap he, hmate, capOf_eq he, capOf_eq he']

theorem sum_source (F : Half n → Int) (g : Graph n) (u : Fin n) :
    ∑ p ∈ halves g with p.1 = u, F p = ∑ j ∈ Finset.range (g u).length, F ⟨u, j⟩ := by
  have himage : (halves g).filter (·.1 = u) =
      (Finset.range (g u).length).image fun j => (⟨u, j⟩ : Half n) := by
    ext p
    obtain ⟨v, j⟩ := p
    simp only [halves, Finset.mem_filter, Finset.mem_sigma, Finset.mem_univ, true_and,
      Finset.mem_image, Finset.mem_range, Sigma.mk.injEq]
    constructor
    · rintro ⟨hj, rfl⟩
      exact ⟨j, hj, rfl, heq_of_eq rfl⟩
    · rintro ⟨j', hj, rfl, heq⟩
      rw [eq_of_heq heq] at hj
      exact ⟨hj, rfl⟩
  rw [himage, Finset.sum_image]
  intro j _ j' _ heq
  exact eq_of_heq (Sigma.mk.inj heq).2

/-- What holds when the first `i` edges of the source were followed. -/
structure Saturating (h₀ : WellFormed g₀) (source : Fin n) (i : Nat) (g : Graph n)
    (excess : Fin n → Int) : Prop where
  shape : SameShape g g₀
  preflow : Preflow (network g₀ h₀) source (capOf g) excess
  sum_cap : ∑ p ∈ halves g₀, capOf g p ≤ i64Max
  drained : ∀ j < i, ∀ e, edgeAt g ⟨source, j⟩ = some e → 0 < e.cap → e.target = source
  excess_source : excess source = ∑ j ∈ Finset.range i, capOf g ⟨source, j⟩

theorem Saturating.sum_le (h : Saturating h₀ source p.2 g excess) (hp : p.1 = source)
    (he : edgeAt g p = some e) : excess source + e.cap ≤ i64Max := by
  obtain ⟨u, i⟩ := p
  change u = source at hp
  subst hp
  have hlt : i < (g₀ u).length := by
    rw [← h.shape.length_eq]
    exact (List.getElem?_eq_some_iff.mp he).1
  have hrange : ∑ j ∈ Finset.range (i + 1), capOf g ⟨u, j⟩ ≤
      ∑ j ∈ Finset.range (g₀ u).length, capOf g ⟨u, j⟩ := by
    apply Finset.sum_le_sum_of_subset_of_nonneg
    · exact Finset.range_subset_range.mpr hlt
    · intro j hj _
      apply h.preflow.nonneg
      exact Finset.mem_sigma.mpr ⟨Finset.mem_univ _, hj⟩
  have hall : ∑ p ∈ halves g₀ with p.1 = u, capOf g p ≤ ∑ p ∈ halves g₀, capOf g p := by
    apply Finset.sum_le_sum_of_subset_of_nonneg (Finset.filter_subset _ _)
    intro q hq _
    exact h.preflow.nonneg q hq
  have hsource := h.excess_source
  have hsum := h.sum_cap
  rw [sum_source] at hall
  rw [Finset.sum_range_succ, capOf_eq he] at hrange
  change excess u = ∑ j ∈ Finset.range i, capOf g ⟨u, j⟩ at hsource
  omega

/-- An edge that leaves the source. -/
theorem Saturating.drain {i : Nat} (h : Saturating h₀ source i g excess)
    (he : edgeAt g ⟨source, i⟩ = some e) (hcap : 0 < e.cap) (hne : e.target ≠ source) :
    ∃ g', addCap (setCap g ⟨source, i⟩ 0) ⟨e.target, e.rev⟩ e.cap = some g' ∧
      excess e.target + e.cap ≤ i64Max ∧
      Saturating h₀ source (i + 1) g'
        (Function.update excess e.target (excess e.target + e.cap)) := by
  have hp := h.shape.mem_halves h₀ he
  have hhead := h.shape.head_eq h₀ he
  have hmate := h.shape.mate_eq h₀ he hne
  have hloop : (network g₀ h₀).head ⟨source, i⟩ ≠ (network g₀ h₀).tail ⟨source, i⟩ := by
    rw [hhead]
    exact hne
  have hmateNe := Network.mate_ne hp hloop
  have hcapOf := capOf_eq he
  have hpreflow : Preflow (network g₀ h₀) source
      (pushCap (network g₀ h₀) (capOf g) ⟨source, i⟩ e.cap)
      (Function.update excess e.target (excess e.target + e.cap)) := by
    apply h.preflow.push hp hloop hcap.le hcapOf.ge
    · intro x hx
      rw [hhead, if_neg (show x ≠ (network g₀ h₀).tail ⟨source, i⟩ from hx)]
      by_cases hxt : x = e.target
      · rw [hxt, Function.update_self, if_pos rfl]
        omega
      · rw [Function.update_of_ne hxt, if_neg hxt]
        omega
    · intro hsource
      exact absurd rfl hsource
  have hsum : ∑ p ∈ halves g₀,
      pushCap (network g₀ h₀) (capOf g) ⟨source, i⟩ e.cap p ≤ i64Max := by
    have hback : (network g₀ h₀).mate ⟨source, i⟩ ∈ halves g₀ := (network g₀ h₀).mate_mem _ hp
    have hforth : ⟨source, i⟩ ∈ halves g₀ := hp
    rw [sum_pushCap _ _ _ hmateNe, if_pos hforth, if_pos hback]
    have hle := h.sum_cap
    omega
  have hfit := hpreflow.cap_le hsum ((network g₀ h₀).mate_mem _ hp)
  rw [pushCap_apply _ _ _ hmateNe, if_pos rfl, if_neg hmateNe, sub_zero] at hfit
  obtain ⟨g', hrun, hshape, hcaps⟩ := h.shape.push h₀ he hne hfit
  rw [sub_self] at hrun
  have hexcess : excess e.target + e.cap ≤ i64Max := by
    have hle := hpreflow.excess_le hsum (v := e.target) fun heq => absurd heq hne
    rwa [Function.update_self] at hle
  -- the positions of the source before this one keep their capacities, this one has none
  have hsource : ∀ j, capOf g' ⟨source, j⟩ = if j = i then 0 else capOf g ⟨source, j⟩ := by
    intro j
    have hback : (⟨source, j⟩ : Half n) ≠ (network g₀ h₀).mate ⟨source, i⟩ := by
      rw [hmate]
      exact fun heq => hne (congrArg Sigma.fst heq).symm
    rw [hcaps, pushCap_apply _ _ _ hmateNe, if_neg hback]
    by_cases hj : j = i
    · rw [hj, if_pos rfl, if_pos rfl, hcapOf]
      omega
    · rw [if_neg hj, if_neg (fun heq => hj (eq_of_heq (Sigma.mk.inj heq).2))]
      omega
  refine ⟨g', hrun, hexcess, hshape, ?_, ?_, ?_, ?_⟩
  · rw [hcaps]
    exact hpreflow
  · rw [hcaps]
    exact hsum
  · intro j hj e' he' hpos
    have hj' := hsource j
    rw [capOf_eq he'] at hj'
    by_cases hji : j = i
    · rw [if_pos hji] at hj'
      omega
    · rw [if_neg hji] at hj'
      obtain ⟨e₁, he₁, htarget, _⟩ := (show SameShape g' g from
        fun p => (hshape p).trans (h.shape p).symm).edgeAt he'
      rw [capOf_eq he₁] at hj'
      rw [← htarget]
      exact h.drained j (by omega) e₁ he₁ (by omega)
  · rw [Function.update_of_ne (Ne.symm hne), h.excess_source, Finset.sum_range_succ, hsource i,
      if_pos rfl, add_zero]
    apply Finset.sum_congr rfl
    intro j hj
    have hji : j ≠ i := Nat.ne_of_lt (Finset.mem_range.mp hj)
    rw [hsource j, if_neg hji]

/-- A loop of the source gets back what was taken from it. -/
theorem Saturating.loop {i : Nat} (h : Saturating h₀ source i g excess)
    (he : edgeAt g ⟨source, i⟩ = some e) (hcap : 0 < e.cap) (hloop : e.target = source) :
    ∃ g', addCap (setCap g ⟨source, i⟩ 0) ⟨e.target, e.rev⟩ e.cap = some g' ∧
      excess e.target + e.cap ≤ i64Max ∧
      Saturating h₀ source (i + 1) g'
        (Function.update excess e.target (excess e.target + e.cap)) := by
  have hp := h.shape.mem_halves h₀ he
  have hcapOf := capOf_eq he
  have hbound := h.sum_le rfl he
  -- its capacity is the first one, so that the position refers to itself
  have hrev : e.rev = i := by
    obtain ⟨e₀, he₀, htarget, hrev⟩ := h.shape.edgeAt he
    have hpair := h.preflow.pair _ hp
    have hself : (network g₀ h₀).mate ⟨source, i⟩ = ⟨source, i⟩ :=
      mateOf_loop he₀ (htarget.trans hloop)
    rw [hself, hcapOf] at hpair
    have hcapacity : (network g₀ h₀).capacity ⟨source, i⟩ = e₀.cap := capOf_eq he₀
    rcases h₀.loop _ e₀ he₀ (htarget.trans hloop) with hrev₀ | hzero
    · exact hrev.symm.trans hrev₀
    · omega
  have hplace : (⟨e.target, e.rev⟩ : Half n) = ⟨source, i⟩ := by rw [hloop, hrev]
  have hback : edgeAt (setCap g ⟨source, i⟩ 0) ⟨e.target, e.rev⟩ =
      some { e with cap := 0 } := by
    rw [hplace, edgeAt_setCap, if_pos rfl, he]
    rfl
  have hfit : ({ e with cap := 0 } : Edge n).cap + e.cap ≤ i64Max := by
    have hle := h.preflow.cap_le h.sum_cap hp
    rw [hcapOf] at hle
    show 0 + e.cap ≤ (i64Max : Int)
    omega
  have hcaps : capOf (setCap (setCap g ⟨source, i⟩ 0) ⟨e.target, e.rev⟩
      (({ e with cap := 0 } : Edge n).cap + e.cap)) = capOf g := by
    rw [capOf_setCap hback, capOf_setCap he, hplace, Function.update_idem]
    funext q
    by_cases hq : q = ⟨source, i⟩
    · rw [hq, Function.update_self, hcapOf]
      exact Int.zero_add _
    · rw [Function.update_of_ne hq]
  have hshape : SameShape (setCap (setCap g ⟨source, i⟩ 0) ⟨e.target, e.rev⟩
      (({ e with cap := 0 } : Edge n).cap + e.cap)) g₀ := (h.shape.setCap _ _).setCap _ _
  have hexcess : ∀ v, v ≠ source →
      Function.update excess e.target (excess e.target + e.cap) v = excess v := by
    intro v hv
    rw [hloop, Function.update_of_ne hv]
  refine ⟨_, addCap_eq hback hfit, hloop ▸ hbound, hshape, ?_, ?_, ?_, ?_⟩
  · rw [hcaps]
    constructor
    · exact h.preflow.nonneg
    · exact h.preflow.pair
    · intro v hv
      rw [hexcess v hv]
      exact h.preflow.excess_eq v hv
    · intro v hv
      rw [hexcess v hv]
      exact h.preflow.excess_nonneg v hv
  · rw [hcaps]
    exact h.sum_cap
  · intro j hj e' he' hpos
    obtain ⟨e₁, he₁, htarget, _⟩ := (show SameShape _ g from
      fun p => (hshape p).trans (h.shape p).symm).edgeAt he'
    have hsame := congrFun hcaps ⟨source, j⟩
    rw [capOf_eq he', capOf_eq he₁] at hsame
    rw [← htarget]
    by_cases hji : j = i
    · rw [hji, he] at he₁
      rw [← Option.some.inj he₁]
      exact hloop
    · exact h.drained j (by omega) e₁ he₁ (by omega)
  · rw [hcaps, hloop, Function.update_self, Finset.sum_range_succ, h.excess_source, hcapOf]

/-- An edge of the source with nothing left. -/
theorem Saturating.skip {i : Nat} (h : Saturating h₀ source i g excess)
    (he : edgeAt g ⟨source, i⟩ = some e) (hcap : ¬ 0 < e.cap) :
    Saturating h₀ source (i + 1) g excess := by
  have hnonneg := h.preflow.nonneg _ (h.shape.mem_halves h₀ he)
  have hcapOf := capOf_eq he
  refine ⟨h.shape, h.preflow, h.sum_cap, ?_, ?_⟩
  · intro j hj e' he' hpos
    by_cases hji : j = i
    · rw [hji, he] at he'
      rw [← Option.some.inj he'] at hpos
      exact absurd hpos hcap
    · exact h.drained j (by omega) e' he' hpos
  · rw [Finset.sum_range_succ, ← h.excess_source]
    omega

theorem saturateSource_spec {count : Nat} : ∀ {i : Nat} {g : Graph n} {excess : Fin n → Int},
    Saturating h₀ source i g excess → i + count = (g₀ source).length →
    ∃ g' excess', saturateSource source count i g excess = some (g', excess') ∧
      Saturating h₀ source (g₀ source).length g' excess' := by
  induction count with
  | zero =>
    intro i g excess h hlen
    have hi : i = (g₀ source).length := by omega
    exact ⟨g, excess, rfl, hi ▸ h⟩
  | succ count ih =>
    intro i g excess h hlen
    have hlt : i < (g source).length := by
      rw [h.shape.length_eq]
      omega
    obtain ⟨e, he⟩ : ∃ e, edgeAt g ⟨source, i⟩ = some e := ⟨_, List.getElem?_eq_getElem hlt⟩
    by_cases hcap : 0 < e.cap
    · have hstep : ∃ g', addCap (setCap g ⟨source, i⟩ 0) ⟨e.target, e.rev⟩ e.cap = some g' ∧
          excess e.target + e.cap ≤ i64Max ∧
          Saturating h₀ source (i + 1) g'
            (Function.update excess e.target (excess e.target + e.cap)) := by
        by_cases hloop : e.target = source
        · exact h.loop he hcap hloop
        · exact h.drain he hcap hloop
      obtain ⟨g₁, hadd, hfit, hnext⟩ := hstep
      obtain ⟨g', excess', hrun, hspec⟩ := ih hnext (by omega)
      refine ⟨g', excess', ?_, hspec⟩
      simp only [saturateSource, he, Option.bind_eq_bind, Option.bind_some, hcap, if_true, hadd,
        addI64, hfit]
      exact hrun
    · obtain ⟨g', excess', hrun, hspec⟩ := ih (h.skip he hcap) (by omega)
      refine ⟨g', excess', ?_, hspec⟩
      simp only [saturateSource, he, Option.bind_eq_bind, Option.bind_some, hcap, if_false]
      exact hrun

end Saturate

/-! ### Discharging -/

section Discharge

variable {n : Nat} {g₀ : Graph n} {h₀ : WellFormed g₀} {source sink u : Fin n}
  {busy : Fin n → Prop} {st : State n}

/-- The vertices in excess wait, each once, the busy one apart. -/
structure Running (h₀ : WellFormed g₀) (source sink : Fin n) (busy : Fin n → Prop)
    (st : State n) : Prop where
  shape : SameShape st.g g₀
  inv : PushRelabel.Inv (network g₀ h₀) source sink i64Max (capOf st.g) st.excess st.height
  waiting : ∀ v ∈ st.active, v ≠ source ∧ v ≠ sink ∧ 0 < st.excess v ∧ ¬ busy v
  nodup : st.active.Nodup
  covered : ∀ v, v ≠ source → v ≠ sink → 0 < st.excess v → v ∈ st.active ∨ busy v

def rankOf (st : State n) : Nat := rank i64Max st.excess st.height

/-- The queue after a push from `u` to `t`: `t` waits from when it has an excess. -/
theorem Running.queue_push (h : Running h₀ source sink (· = u) st) {t : Fin n} (hne : t ≠ u)
    {delta : Int} (hdelta : 0 < delta) {active : List (Fin n)}
    (hactive : active = if t ≠ source ∧ t ≠ sink ∧ st.excess t + delta = delta then
      st.active ++ [t] else st.active) :
    (∀ v ∈ active, v ≠ source ∧ v ≠ sink ∧ 0 < pushExcess st.excess u t delta v ∧ ¬ v = u) ∧
      active.Nodup ∧
      ∀ v, v ≠ source → v ≠ sink → 0 < pushExcess st.excess u t delta v → v ∈ active ∨ v = u := by
  have hexcess := pushExcess_apply st.excess delta (Ne.symm hne)
  subst hactive
  refine ⟨?_, ?_, ?_⟩
  · intro v hv
    have hold : v ∈ st.active → v ≠ source ∧ v ≠ sink ∧
        0 < pushExcess st.excess u t delta v ∧ ¬ v = u := by
      intro hmem
      obtain ⟨hvs, hvt, hvpos, hvu⟩ := h.waiting v hmem
      refine ⟨hvs, hvt, ?_, hvu⟩
      rw [hexcess, if_neg hvu]
      split <;> omega
    split at hv
    next hnew =>
      rcases List.mem_append.mp hv with hmem | hmem
      · exact hold hmem
      · rw [List.mem_singleton.mp hmem]
        refine ⟨hnew.1, hnew.2.1, ?_, hne⟩
        rw [hexcess, if_pos rfl, if_neg hne, hnew.2.2]
        omega
    next => exact hold hv
  · split
    next hnew =>
      apply List.nodup_append.mpr ⟨h.nodup, List.nodup_singleton _, ?_⟩
      intro a ha b hb heq
      rw [heq, List.mem_singleton.mp hb] at ha
      have hwait := (h.waiting _ ha).2.2.1
      omega
    next => exact h.nodup
  · intro v hvs hvt hvpos
    by_cases hvu : v = u
    · exact .inr hvu
    left
    rw [hexcess, if_neg hvu, sub_zero] at hvpos
    have hnonneg := h.inv.excess_nonneg v
    by_cases hzero : st.excess v = 0
    -- it had no excess before, so that it is the end of the push
    · have hvt' : v = t := by
        by_contra hne'
        rw [if_neg hne'] at hvpos
        omega
      rw [hvt'] at hvs hvt hzero ⊢
      rw [if_pos ⟨hvs, hvt, by omega⟩]
      exact List.mem_append_right _ (List.mem_singleton.mpr rfl)
    · rcases h.covered v hvs hvt (by omega) with hmem | hbusy
      · split
        next => exact List.mem_append_left _ hmem
        next => exact hmem
      · exact absurd hbusy hvu

/-- A push leaves the edge saturated or its start without excess, and the other edges of the
    start as they were. -/
theorem Running.push (h : Running h₀ source sink (· = u) st) {i : Nat} {e : Edge n}
    (he : edgeAt st.g ⟨u, i⟩ = some e) (hcap : 0 < e.cap)
    (hheight : st.height u = st.height e.target + 1) (hsource : u ≠ source)
    (hpos : 0 < st.excess u) :
    ∃ st', push source sink u i e st = some st' ∧ Running h₀ source sink (· = u) st' ∧
      rankOf st' < rankOf st ∧ st'.height = st.height ∧
      (st'.excess u = 0 ∨ capOf st'.g ⟨u, i⟩ = 0) ∧
      ∀ j, j ≠ i → capOf st'.g ⟨u, j⟩ = capOf st.g ⟨u, j⟩ := by
  have hp := h.shape.mem_halves h₀ he
  have hhead := h.shape.head_eq h₀ he
  have hne : e.target ≠ u := by
    intro heq
    rw [heq] at hheight
    omega
  have hmate := h.shape.mate_eq h₀ he hne
  have hloop : (network g₀ h₀).head ⟨u, i⟩ ≠ (network g₀ h₀).tail ⟨u, i⟩ := by
    rw [hhead]
    exact hne
  have hmateNe := Network.mate_ne hp hloop
  have hcapOf := capOf_eq he
  have hdelta : 0 < min (st.excess u) e.cap := lt_min hpos hcap
  have hdeltaCap : min (st.excess u) e.cap ≤ capOf st.g ⟨u, i⟩ := by
    rw [hcapOf]
    exact min_le_right _ _
  have hdeltaExcess : min (st.excess u) e.cap ≤ st.excess u := min_le_left _ _
  have hfall : st.height ((network g₀ h₀).tail ⟨u, i⟩) =
      st.height ((network g₀ h₀).head ⟨u, i⟩) + 1 := by
    rw [hhead]
    exact hheight
  have hinv := h.inv.push hp hsource hfall hdelta.le hdeltaCap hdeltaExcess
  have hrank := rank_push h.inv hp hsource hfall hdelta hdeltaCap hdeltaExcess
  have hused : st.excess u - min (st.excess u) e.cap = 0 ∨ e.cap - min (st.excess u) e.cap = 0 := by
    omega
  unfold MaxFlow.push
  generalize min (st.excess u) e.cap = delta at *
  rw [hhead] at hinv hrank
  change PushRelabel.Inv _ source sink i64Max _ (pushExcess st.excess u e.target delta)
    st.height at hinv
  change rank i64Max (pushExcess st.excess u e.target delta) st.height < _ at hrank
  have hexcess := pushExcess_apply st.excess delta (Ne.symm hne)
  have hback : capOf st.g ((network g₀ h₀).mate ⟨u, i⟩) + delta ≤ i64Max := by
    have hle := hinv.preflow.cap_le hinv.sum_cap ((network g₀ h₀).mate_mem _ hp)
    rwa [pushCap_apply _ _ _ hmateNe, if_pos rfl, if_neg hmateNe, sub_zero] at hle
  obtain ⟨g', hrun, hshape, hcaps⟩ := h.shape.push h₀ he hne hback
  have hx : Function.update st.excess u (st.excess u - delta) e.target + delta =
      st.excess e.target + delta := by rw [Function.update_of_ne hne]
  have hfit : st.excess e.target + delta ≤ i64Max := by
    have hle := hinv.excess_le e.target
    rwa [hexcess, if_pos rfl, if_neg hne, sub_zero] at hle
  have hrow : ∀ j, capOf g' ⟨u, j⟩ = capOf st.g ⟨u, j⟩ - if j = i then delta else 0 := by
    intro j
    have hother : (⟨u, j⟩ : Half n) ≠ (network g₀ h₀).mate ⟨u, i⟩ := by
      rw [hmate]
      exact fun heq => hne (congrArg Sigma.fst heq).symm
    rw [hcaps, pushCap_apply _ _ _ hmateNe, if_neg hother, add_zero]
    by_cases hj : j = i
    · rw [hj, if_pos rfl, if_pos rfl]
    · rw [if_neg hj, if_neg (fun heq => hj (eq_of_heq (Sigma.mk.inj heq).2))]
  simp only [hrun, Option.bind_eq_bind, Option.bind_some, addI64, hx, hfit, if_true]
  refine ⟨_, rfl, ?_, hrank, rfl, ?_, ?_⟩
  · obtain ⟨hwaiting, hnodup, hcovered⟩ := h.queue_push hne hdelta rfl
    refine ⟨hshape, ?_, hwaiting, hnodup, hcovered⟩
    show PushRelabel.Inv _ source sink i64Max (capOf g')
      (pushExcess st.excess u e.target delta) st.height
    rw [hcaps]
    exact hinv
  · show pushExcess st.excess u e.target delta u = 0 ∨ capOf g' ⟨u, i⟩ = 0
    rw [hexcess, if_neg (Ne.symm hne), if_pos rfl, hrow, if_pos rfl, hcapOf]
    omega
  · intro j hj
    show capOf g' ⟨u, j⟩ = capOf st.g ⟨u, j⟩
    rw [hrow, if_neg hj, sub_zero]

/-- Nothing can be pushed along the first `i` edges of `u`. -/
def Blocked (g₀ : Graph n) (u : Fin n) (i : Nat) (st : State n) : Prop :=
  ∀ j < i, 0 < capOf st.g ⟨u, j⟩ → st.height u ≤ st.height (headOf g₀ ⟨u, j⟩)

theorem pushEdges_spec (hsource : u ≠ source) {count : Nat} : ∀ {i : Nat} {st : State n},
    Running h₀ source sink (· = u) st → Blocked g₀ u i st → i + count = (g₀ u).length →
    0 < st.excess u →
    ∃ st' pushed, pushEdges source sink u count i st = some (st', pushed) ∧
      Running h₀ source sink (· = u) st' ∧ rankOf st' ≤ rankOf st ∧
      (pushed = true → st'.excess u = 0 ∧ rankOf st' < rankOf st) ∧
      (pushed = false → 0 < st'.excess u ∧ Blocked g₀ u (g₀ u).length st') := by
  induction count with
  | zero =>
    intro i st h hblocked hlen hpos
    have hi : i = (g₀ u).length := by omega
    refine ⟨st, false, rfl, h, le_rfl, ?_, fun _ => ⟨hpos, hi ▸ hblocked⟩⟩
    intro htrue
    cases htrue
  | succ count ih =>
    intro i st h hblocked hlen hpos
    have hlt : i < (st.g u).length := by
      rw [h.shape.length_eq]
      omega
    obtain ⟨e, he⟩ : ∃ e, edgeAt st.g ⟨u, i⟩ = some e := ⟨_, List.getElem?_eq_getElem hlt⟩
    have hhead : headOf g₀ ⟨u, i⟩ = e.target := h.shape.head_eq h₀ he
    by_cases hpush : 0 < e.cap ∧ st.height u = st.height e.target + 1
    · obtain ⟨st₁, hrun, hnext, hrank, hheight, hused, hrow⟩ :=
        h.push he hpush.1 hpush.2 hsource hpos
      by_cases hdone : st₁.excess u = 0
      · refine ⟨st₁, true, ?_, hnext, hrank.le, fun _ => ⟨hdone, hrank⟩, ?_⟩
        · simp only [pushEdges, he, Option.bind_eq_bind, Option.bind_some, hpush, and_self,
            if_true, hrun, hdone]
        · intro hfalse
          cases hfalse
      · have hblocked₁ : Blocked g₀ u (i + 1) st₁ := by
          intro j hj hcap
          rw [hheight]
          by_cases hji : j = i
          · rw [hji] at hcap
            omega
          · rw [hrow j hji] at hcap
            exact hblocked j (by omega) hcap
        have hpos₁ : 0 < st₁.excess u := by
          have hnonneg := hnext.inv.excess_nonneg u
          omega
        obtain ⟨st', pushed, hloop, hspec, hle, htrue, hfalse⟩ :=
          ih hnext hblocked₁ (by omega) hpos₁
        refine ⟨st', pushed, ?_, hspec, hle.trans hrank.le, ?_, hfalse⟩
        · simp only [pushEdges, he, Option.bind_eq_bind, Option.bind_some, hpush, and_self,
            if_true, hrun, hdone, if_false]
          exact hloop
        · intro hpushed
          exact ⟨(htrue hpushed).1, (htrue hpushed).2.trans hrank⟩
    · have hblocked' : Blocked g₀ u (i + 1) st := by
        intro j hj hcap
        by_cases hji : j = i
        -- heights fall by one at most, and here not by one
        · have hvalid := h.inv.valid ⟨u, i⟩ (h.shape.mem_halves h₀ he) (hji ▸ hcap)
          rw [h.shape.head_eq h₀ he] at hvalid
          change st.height u ≤ st.height e.target + 1 at hvalid
          rw [hji, capOf_eq he] at hcap
          rw [hji, hhead]
          have hne : st.height u ≠ st.height e.target + 1 := fun heq => hpush ⟨hcap, heq⟩
          omega
        · exact hblocked j (by omega) hcap
      obtain ⟨st', pushed, hloop, hspec⟩ := ih h hblocked' (by omega) hpos
      refine ⟨st', pushed, ?_, hspec⟩
      simp only [pushEdges, he, Option.bind_eq_bind, Option.bind_some, hpush, if_false]
      exact hloop

theorem Running.relabel (h : Running h₀ source sink (· = u) st) (hsource : u ≠ source)
    (hsink : u ≠ sink) (hpos : 0 < st.excess u) (hblocked : Blocked g₀ u (g₀ u).length st) :
    Running h₀ source sink (· = u) (relabel u st) ∧ rankOf (relabel u st) < rankOf st := by
  have hhead : ∀ j e, edgeAt st.g ⟨u, j⟩ = some e → headOf g₀ ⟨u, j⟩ = e.target := by
    intro j e he
    exact h.shape.head_eq h₀ he
  -- what is in excess can be pushed back, so that there is a height to take
  obtain ⟨j, e, he, hcap⟩ : ∃ j e, edgeAt st.g ⟨u, j⟩ = some e ∧ 0 < e.cap := by
    rcases Relation.ReflTransGen.cases_head (h.inv.preflow.reaches_source hpos) with
      heq | ⟨v, ⟨p, hp, htail, _, hcap⟩, _⟩
    · exact absurd heq hsource
    · obtain ⟨w, j⟩ := p
      change w = u at htail
      subst htail
      obtain ⟨e₀, he₀⟩ := mem_halves.mp hp
      obtain ⟨e, he, _⟩ := h.shape.symm.edgeAt he₀
      rw [capOf_eq he] at hcap
      exact ⟨j, e, he, hcap⟩
  have hmem : st.height e.target ∈
      ((st.g u).filter (0 < ·.cap)).map (st.height ·.target) := by
    apply List.mem_map.mpr
    exact ⟨e, List.mem_filter.mpr ⟨List.mem_of_getElem? he, decide_eq_true hcap⟩, rfl⟩
  obtain ⟨minH, hmin⟩ : ∃ minH,
      (((st.g u).filter (0 < ·.cap)).map (st.height ·.target)).min? = some minH := by
    apply Option.ne_none_iff_exists'.mp
    intro hnone
    rw [List.min?_eq_none_iff.mp hnone] at hmem
    cases hmem
  have hrelabel : MaxFlow.relabel u st =
      { st with height := Function.update st.height u (minH + 1) } := by
    simp only [MaxFlow.relabel, hmin]
  obtain ⟨hattained, hleast⟩ := List.min?_eq_some_iff.mp hmin
  have hk : ∀ p ∈ (network g₀ h₀).halves, (network g₀ h₀).tail p = u → 0 < capOf st.g p →
      minH ≤ st.height ((network g₀ h₀).head p) := by
    intro p hp htail hcap
    obtain ⟨w, j⟩ := p
    change w = u at htail
    subst htail
    obtain ⟨e₀, he₀⟩ := mem_halves.mp hp
    obtain ⟨e, he, _⟩ := h.shape.symm.edgeAt he₀
    rw [capOf_eq he] at hcap
    rw [h.shape.head_eq h₀ he]
    apply hleast
    apply List.mem_map.mpr
    exact ⟨e, List.mem_filter.mpr ⟨List.mem_of_getElem? he, decide_eq_true hcap⟩, rfl⟩
  have hu : st.height u ≤ minH := by
    obtain ⟨e, hmem, rfl⟩ := List.mem_map.mp hattained
    obtain ⟨hmem, hcap⟩ := List.mem_filter.mp hmem
    obtain ⟨j, hj⟩ := List.mem_iff_getElem?.mp hmem
    have he : edgeAt st.g ⟨u, j⟩ = some e := hj
    have hlt : j < (g₀ u).length := by
      rw [← h.shape.length_eq]
      exact (List.getElem?_eq_some_iff.mp hj).1
    have hle := hblocked j hlt (by
      rw [capOf_eq he]
      exact of_decide_eq_true hcap)
    rwa [hhead j e he] at hle
  have hrank := rank_relabel h.inv hsource hsink hpos hk hu
  rw [hrelabel]
  refine ⟨?_, hrank⟩
  constructor
  · exact h.shape
  · exact h.inv.relabel hsource hsink hpos hk hu
  · exact h.waiting
  · exact h.nodup
  · exact h.covered

theorem discharge_spec (hsource : u ≠ source) (hsink : u ≠ sink) {fuel : Nat} :
    ∀ {st : State n}, Running h₀ source sink (· = u) st → rankOf st < fuel →
    ∃ st', discharge source sink u fuel st = some st' ∧
      Running h₀ source sink (fun _ => False) st' ∧ rankOf st' ≤ rankOf st ∧
      (0 < st.excess u → rankOf st' < rankOf st) := by
  induction fuel with
  | zero =>
    intro st _ hfuel
    omega
  | succ fuel ih =>
    intro st h hfuel
    -- the vertex is no longer busy when its excess is used up
    have hrest : ∀ {st' : State n}, Running h₀ source sink (· = u) st' → st'.excess u = 0 →
        Running h₀ source sink (fun _ => False) st' := by
      intro st' h' hzero
      refine ⟨h'.shape, h'.inv, ?_, h'.nodup, ?_⟩
      · intro v hv
        obtain ⟨hvs, hvt, hvpos, _⟩ := h'.waiting v hv
        exact ⟨hvs, hvt, hvpos, id⟩
      · intro v hvs hvt hvpos
        rcases h'.covered v hvs hvt hvpos with hmem | heq
        · exact .inl hmem
        · rw [heq, hzero] at hvpos
          omega
    by_cases hpos : 0 < st.excess u
    · have hlen : 0 + (st.g u).length = (g₀ u).length := by rw [h.shape.length_eq, Nat.zero_add]
      obtain ⟨st₁, pushed, hrun, h₁, hle, htrue, hfalse⟩ :=
        pushEdges_spec hsource h (fun j hj => by omega) hlen hpos
      cases pushed with
      | true =>
        obtain ⟨hzero, hrank⟩ := htrue rfl
        refine ⟨st₁, ?_, hrest h₁ hzero, hle, fun _ => hrank⟩
        simp [discharge, hpos, hrun, hzero]
      | false =>
        obtain ⟨hpos₁, hblocked⟩ := hfalse rfl
        obtain ⟨h₂, hrank⟩ := h₁.relabel hsource hsink hpos₁ hblocked
        obtain ⟨st', hloop, hspec, hle', _⟩ := ih h₂ (by omega)
        refine ⟨st', ?_, hspec, by omega, fun _ => by omega⟩
        simp [discharge, hpos, hrun, hloop]
    · have hnonneg := h.inv.excess_nonneg u
      refine ⟨st, ?_, hrest h (by omega), le_rfl, fun h => absurd h hpos⟩
      simp [discharge, hpos]

theorem dischargeAll_spec {fuel turns : Nat} : ∀ {st : State n},
    Running h₀ source sink (fun _ => False) st → rankOf st < fuel → rankOf st < turns →
    ∃ st', dischargeAll source sink turns fuel st = some st' ∧
      Running h₀ source sink (fun _ => False) st' ∧ st'.active = [] := by
  induction fuel with
  | zero =>
    intro st _ hfuel
    omega
  | succ fuel ih =>
    intro st h hfuel hturns
    match hactive : st.active with
    | [] =>
      refine ⟨st, ?_, h, hactive⟩
      simp [dischargeAll, hactive]
    | u :: active =>
      obtain ⟨hsource, hsink, hpos, _⟩ := h.waiting u (by rw [hactive]; exact List.mem_cons_self)
      have hnodup := h.nodup
      rw [hactive, List.nodup_cons] at hnodup
      have hbusy : Running h₀ source sink (· = u) { st with active } := by
        refine ⟨h.shape, h.inv, ?_, hnodup.2, ?_⟩
        · intro v hv
          obtain ⟨hvs, hvt, hvpos, _⟩ := h.waiting v (by
            rw [hactive]
            exact List.mem_cons_of_mem _ hv)
          exact ⟨hvs, hvt, hvpos, fun heq => hnodup.1 (heq ▸ hv)⟩
        · intro v hvs hvt hvpos
          rcases h.covered v hvs hvt hvpos with hmem | hfalse
          · rw [hactive] at hmem
            rcases List.mem_cons.mp hmem with heq | hmem
            · exact .inr heq
            · exact .inl hmem
          · exact absurd hfalse id
      obtain ⟨st₁, hrun, h₁, _, hrank⟩ := discharge_spec hsource hsink hbusy
        (show rankOf { st with active } < turns from hturns)
      have hless : rankOf st₁ < rankOf st := hrank hpos
      obtain ⟨st', hloop, hspec⟩ := ih h₁ (by omega) (by omega)
      refine ⟨st', ?_, hspec⟩
      simp only [dischargeAll, hactive, hrun, Option.bind_eq_bind, Option.bind_some]
      exact hloop

end Discharge

/-! ### The whole function -/

section Whole

variable {n : Nat}

/-- The network before the first push. -/
theorem saturating_start (edges : List InputEdge) (source : Fin n)
    (hsum : positiveSum edges ≤ i64Max) :
    Saturating (wellFormed_buildGraph edges) source 0 (buildGraph n edges) fun _ => 0 := by
  constructor
  · exact fun _ => rfl
  · constructor
    · exact (network _ (wellFormed_buildGraph edges)).capacity_nonneg
    · intro p _
      rfl
    · intro v _
      symm
      apply Finset.sum_eq_zero
      intro p _
      exact sub_self _
    · intro v _
      exact le_rfl
  · exact (sum_capOf_le edges).trans hsum
  · intro j hj
    omega
  · rfl

/-- The source at the height of the vertex count, the others on the ground. -/
theorem Saturating.running {g₀ g : Graph n} {h₀ : WellFormed g₀} {source sink : Fin n}
    {excess : Fin n → Int} (h : Saturating h₀ source (g₀ source).length g excess)
    (hne : sink ≠ source) :
    Running h₀ source sink (fun _ => False)
      { g
        height := Function.update (fun _ => 0) source n
        excess
        active := (List.finRange n).filter fun v =>
          v ≠ source ∧ v ≠ sink ∧ 0 < excess v } := by
  have hn := source.isLt
  have hsource : ∑ p ∈ halves g₀ with p.1 = source, capOf g p = excess source := by
    rw [sum_source, h.excess_source]
  constructor
  · exact h.shape
  · constructor
    · exact h.preflow
    · intro p hp hcap
      show Function.update (fun _ => 0) source n p.1 ≤
        Function.update (fun _ => 0) source n (headOf g₀ p) + 1
      by_cases hps : p.1 = source
      -- only loops have something left at the source
      · obtain ⟨u, j⟩ := p
        change u = source at hps
        subst hps
        obtain ⟨e₀, he₀⟩ := mem_halves.mp hp
        obtain ⟨e, he, htarget, _⟩ := h.shape.symm.edgeAt he₀
        rw [capOf_eq he] at hcap
        have hloop := h.drained j (List.getElem?_eq_some_iff.mp he₀).1 e he hcap
        rw [headOf_eq he₀, ← htarget, hloop]
        exact Nat.le_succ _
      · rw [Function.update_of_ne hps]
        exact Nat.zero_le _
    · show Function.update (fun _ => 0) source n source = Fintype.card (Fin n)
      rw [Function.update_self, Fintype.card_fin]
    · show Function.update (fun _ => 0) source n sink = 0
      rw [Function.update_of_ne hne]
    · intro v
      show Function.update (fun _ => 0) source n v < 2 * Fintype.card (Fin n)
      rw [Fintype.card_fin]
      by_cases hv : v = source
      · rw [hv, Function.update_self]
        omega
      · rw [Function.update_of_ne hv]
        omega
    · exact h.sum_cap
    · show 0 ≤ excess source
      rw [← hsource]
      apply Finset.sum_nonneg
      intro p hp
      exact h.preflow.nonneg p (Finset.mem_filter.mp hp).1
    · exact hsource.ge
  · intro v hv
    obtain ⟨hvs, hvt, hvpos⟩ := of_decide_eq_true (List.mem_filter.mp hv).2
    exact ⟨hvs, hvt, hvpos, id⟩
  · exact (List.nodup_finRange n).filter _
  · intro v hvs hvt hvpos
    left
    exact List.mem_filter.mpr ⟨List.mem_finRange v, decide_eq_true ⟨hvs, hvt, hvpos⟩⟩

theorem run_spec (edges : List InputEdge) {source sink : Fin n} (hne : source ≠ sink)
    (hsum : positiveSum edges ≤ i64Max) :
    ∃ value, run edges source sink = some value ∧
      IsMaxFlow (capacity n edges) source sink value := by
  obtain ⟨g, excess, hsaturate, hdrained⟩ := saturateSource_spec
    (saturating_start edges source hsum) (Nat.zero_add _)
  have hsink : sink ≠ source := Ne.symm hne
  have hrunning := hdrained.running hsink
  have hrank := rank_le hrunning.inv
  rw [Fintype.card_fin] at hrank
  have hturns : rankOf _ < turns n := Nat.lt_succ_of_le hrank
  obtain ⟨st, hrun, h, hempty⟩ := dischargeAll_spec hrunning hturns hturns
  refine ⟨st.excess sink, ?_, ?_⟩
  · simp only [run, hsaturate, Option.bind_eq_bind, Option.bind_some]
    rw [hrun]
    rfl
  · have hzero : ∀ v, v ≠ source → v ≠ sink → st.excess v = 0 := by
      intro v hvs hvt
      have hnonneg := h.inv.excess_nonneg v
      by_contra hne
      rcases h.covered v hvs hvt (by omega) with hmem | hfalse
      · rw [hempty] at hmem
        cases hmem
      · exact hfalse
    have hmax := isMaxFlow_of_settled h.inv.preflow h.inv.valid h.inv.source_height
      h.inv.sink_height hsink hzero
    have hcapacity : (network (buildGraph n edges) (wellFormed_buildGraph edges)).between =
        capacity n edges := by
      funext u v
      exact between_eq edges u v
    rwa [hcapacity] at hmax

/-- Where the positive capacities add up within an `i64`, the function returns: zero where
    source and sink are one vertex or no vertices, otherwise the greatest value of a flow,
    which is the least capacity of a cut. -/
theorem max_flow_push_relabel_correct (nodeCount : Nat) (edges : List InputEdge)
    (source sink : Nat) (hsum : positiveSum edges ≤ i64Max) :
    ∃ value, maxFlowPushRelabel nodeCount edges source sink = some value ∧
      ((source = sink ∨ nodeCount ≤ source ∨ nodeCount ≤ sink) → value = 0) ∧
      ∀ (hsource : source < nodeCount) (hsink : sink < nodeCount), source ≠ sink →
        IsMaxFlow (capacity nodeCount edges) ⟨source, hsource⟩ ⟨sink, hsink⟩ value := by
  by_cases h : nodeCount = 0 ∨ nodeCount ≤ source ∨ nodeCount ≤ sink ∨ source = sink
  · refine ⟨0, by rw [maxFlowPushRelabel, dif_pos h], fun _ => rfl, ?_⟩
    intro hsource hsink hne
    omega
  · have hne : (⟨source, by omega⟩ : Fin nodeCount) ≠ ⟨sink, by omega⟩ := by
      intro heq
      have hval := Fin.mk.inj heq
      omega
    obtain ⟨value, hrun, hmax⟩ := run_spec edges hne hsum
    refine ⟨value, by rw [maxFlowPushRelabel, dif_neg h]; exact hrun, ?_, ?_⟩
    · intro hout
      omega
    · intro _ _ _
      exact hmax

/-- Parallel edges, a loop, an edge out of range and one without capacity. -/
theorem max_flow_push_relabel_correct_parallel :
    maxFlowPushRelabel 3 [(0, 1, 3), (1, 1, 7), (1, 2, 1), (1, 2, 1), (9, 1, 4), (0, 2, -5)] 0 2 =
        some 2 ∧
      IsMaxFlow
        (capacity 3 [(0, 1, 3), (1, 1, 7), (1, 2, 1), (1, 2, 1), (9, 1, 4), (0, 2, -5)]) 0 2 2 := by
  have hrun : maxFlowPushRelabel 3
      [(0, 1, 3), (1, 1, 7), (1, 2, 1), (1, 2, 1), (9, 1, 4), (0, 2, -5)] 0 2 = some 2 := by
    decide +kernel
  obtain ⟨value, hvalue, _, hmax⟩ := max_flow_push_relabel_correct 3
    [(0, 1, 3), (1, 1, 7), (1, 2, 1), (1, 2, 1), (9, 1, 4), (0, 2, -5)] 0 2 (by decide +kernel)
  rw [hrun, Option.some.injEq] at hvalue
  subst hvalue
  exact ⟨hrun, hmax (by decide) (by decide) (by decide)⟩

end Whole

end Canon.Algorithms.MaxFlow
