import Canon.Lib.ShortestPaths
import Mathlib.Algebra.BigOperators.Group.Finset.Piecewise
import Mathlib.Algebra.Order.BigOperators.Group.Finset

/-! # Best-first search

    The vertices whose labels were lowered wait in a heap, each with the estimate `prio` of
    its label; a vertex may wait more than once.  Taking one lowers labels along its edges.

    * `MinHeap`: a heap, which of the entries that tie it gives is its own choice,
    * `Inv`: the invariant, `Inv.take`, `Inv.relax`, `Inv.close`: the steps that keep it,
    * `Inv.frontier`: on every walk either the end is settled or a vertex waits,
    * `Inv.settled_of_empty`, `Inv.settled_of_pop`: what an empty heap and a least entry say,
    * `potential_relax`: what bounds the run,
    * `Links`: the predecessors form a tree, and the path they give is no longer than the
      label,
    * `follow`, `Sound.expand`: the edges of a vertex that was taken.
-/

namespace BestFirst

open ShortestPaths

variable {α : Type*}

/-- An entry of a heap. -/
structure Entry (α : Type*) where
  cost : Nat
  position : α
deriving DecidableEq

structure MinHeap (α : Type*) where
  pop : List (Entry α) → Option (Entry α × List (Entry α))
  pop_nil : pop [] = none
  exists_pop : ∀ l, l ≠ [] → ∃ e rest, pop l = some (e, rest)
  perm : ∀ {l e rest}, pop l = some (e, rest) → l.Perm (e :: rest)
  least : ∀ {l e rest}, pop l = some (e, rest) → ∀ e' ∈ rest, e.cost ≤ e'.cost

/-- The heap that keeps its entries sorted. -/
def MinHeap.sorted : MinHeap α where
  pop l :=
    match l.insertionSort (·.cost ≤ ·.cost) with
    | [] => none
    | e :: rest => some (e, rest)
  pop_nil := rfl
  exists_pop l hl := by
    match hsort : l.insertionSort (·.cost ≤ ·.cost) with
    | [] =>
      have hperm := List.perm_insertionSort (·.cost ≤ ·.cost) l
      rw [hsort] at hperm
      exact absurd hperm.nil_eq.symm hl
    | e :: rest => exact ⟨e, rest, by simp only [hsort]⟩
  perm {l e rest} h := by
    match hsort : l.insertionSort (·.cost ≤ ·.cost) with
    | [] =>
      rw [hsort] at h
      cases h
    | e' :: rest' =>
      rw [hsort] at h
      cases h
      rw [← hsort]
      exact (List.perm_insertionSort _ l).symm
  least {l e rest} h := by
    have hsorted : (l.insertionSort (·.cost ≤ ·.cost)).Pairwise (·.cost ≤ ·.cost) :=
      have : Std.Total fun a b : Entry α => a.cost ≤ b.cost :=
        ⟨fun a b => Nat.le_total a.cost b.cost⟩
      have : IsTrans (Entry α) fun a b => a.cost ≤ b.cost := ⟨fun _ _ _ => Nat.le_trans⟩
      List.pairwise_insertionSort _ l
    match hsort : l.insertionSort (·.cost ≤ ·.cost) with
    | [] =>
      rw [hsort] at h
      cases h
    | e' :: rest' =>
      rw [hsort] at h hsorted
      cases h
      exact fun e' he' => List.rel_of_pairwise_cons hsorted he'

/-- The vertex waits with the estimate of its label. -/
def Waiting (prio : α → Nat → Nat) (d : α → Nat) (heap : List (Entry α)) (x : α) : Prop :=
  ⟨prio x (d x), x⟩ ∈ heap

/-- Every vertex with a label waits or is relaxed, the `busy` ones apart; the vertices of
    `keep` wait. -/
structure Inv (E : α → Nat → α → Prop) (s : α) (cap : Nat) (prio : α → Nat → Nat)
    (keep busy : α → Prop) (d : α → Nat) (heap : List (Entry α)) : Prop where
  labels : Labels E s cap d
  labelled : ∀ e ∈ heap, d e.position < cap
  above : ∀ e ∈ heap, prio e.position (d e.position) ≤ e.cost
  covered : ∀ x, d x < cap → busy x ∨ Waiting prio d heap x ∨ ¬ keep x ∧ Relaxed E d x

section

variable {E : α → Nat → α → Prop} {s : α} {cap : Nat} {prio : α → Nat → Nat}
  {keep busy : α → Prop} {d : α → Nat} {heap rest : List (Entry α)} {e : Entry α}

theorem Inv.start [DecidableEq α] (hcap : 0 < cap) :
    Inv E s cap prio keep (fun _ => False) (Function.update (fun _ => cap) s 0)
      [⟨prio s 0, s⟩] := by
  have hlow : ∀ x, Function.update (fun _ => cap) s 0 x < cap → x = s := by
    intro x hx
    by_contra hne
    rw [Function.update_of_ne hne] at hx
    omega
  constructor
  · constructor
    · exact Function.update_self ..
    · intro v
      by_cases hv : v = s
      · rw [hv, Function.update_self]
        omega
      · rw [Function.update_of_ne hv]
    · intro v hv
      rw [hlow v hv, Function.update_self]
      exact ⟨_, .nil⟩
  · intro e he
    rw [List.mem_singleton.mp he]
    show Function.update (fun _ => cap) s 0 s < cap
    rw [Function.update_self]
    exact hcap
  · intro e he
    rw [List.mem_singleton.mp he]
    show prio s (Function.update (fun _ => cap) s 0 s) ≤ prio s 0
    rw [Function.update_self]
  · intro x hx
    right; left
    rw [hlow x hx]
    show (⟨prio s (Function.update (fun _ => cap) s 0 s), s⟩ : Entry α) ∈ _
    rw [Function.update_self]
    exact List.mem_singleton.mpr rfl

/-- The vertex of the entry that is taken becomes busy. -/
theorem Inv.take (h : Inv E s cap prio keep (fun _ => False) d heap)
    (hperm : heap.Perm (e :: rest)) : Inv E s cap prio keep (· = e.position) d rest := by
  constructor
  · exact h.labels
  · intro e' he'
    exact h.labelled e' (hperm.mem_iff.mpr (List.mem_cons_of_mem _ he'))
  · intro e' he'
    exact h.above e' (hperm.mem_iff.mpr (List.mem_cons_of_mem _ he'))
  · intro x hx
    rcases h.covered x hx with hbusy | hwait | hrelaxed
    · exact absurd hbusy id
    · rcases List.mem_cons.mp (hperm.mem_iff.mp hwait) with heq | hmem
      · left
        rw [← heq]
      · exact .inr (.inl hmem)
    · exact .inr (.inr hrelaxed)

/-- An entry that is out of date is dropped. -/
theorem Inv.skip (h : Inv E s cap prio keep (fun _ => False) d heap)
    (hperm : heap.Perm (e :: rest)) (hstale : prio e.position (d e.position) ≠ e.cost) :
    Inv E s cap prio keep (fun _ => False) d rest := by
  constructor
  · exact h.labels
  · exact (h.take hperm).labelled
  · exact (h.take hperm).above
  · intro x hx
    rcases h.covered x hx with hbusy | hwait | hrelaxed
    · exact .inl hbusy
    · rcases List.mem_cons.mp (hperm.mem_iff.mp hwait) with heq | hmem
      · exfalso
        apply hstale
        rw [← heq]
      · exact .inr (.inl hmem)
    · exact .inr (.inr hrelaxed)

theorem relaxed_update [DecidableEq α] {u v x : α} {w : Nat} (hlt : d u + w < d v) (hx : x ≠ v)
    (hrelaxed : Relaxed E d x) : Relaxed E (Function.update d v (d u + w)) x := by
  intro w' y he
  have hle := hrelaxed w' y he
  rw [Function.update_of_ne hx]
  by_cases hy : y = v
  · rw [hy, Function.update_self]
    rw [hy] at hle
    omega
  · rw [Function.update_of_ne hy]
    exact hle

/-- A label is lowered, and its vertex waits. -/
theorem Inv.relax [DecidableEq α] (h : Inv E s cap prio keep busy d heap)
    (hmono : ∀ x, Monotone (prio x)) {u v : α} {w : Nat} (he : E u w v) (hu : d u < cap)
    (hlt : d u + w < d v) :
    Inv E s cap prio keep busy (Function.update d v (d u + w))
      (⟨prio v (d u + w), v⟩ :: heap) := by
  constructor
  · exact h.labels.relax he hu hlt
  · intro e' he'
    have hcap := h.labels.le_cap v
    by_cases hv : e'.position = v
    · rw [hv, Function.update_self]
      omega
    · rw [Function.update_of_ne hv]
      rcases List.mem_cons.mp he' with heq | hmem
      · rw [heq] at hv
        exact absurd rfl hv
      · exact h.labelled e' hmem
  · intro e' he'
    rcases List.mem_cons.mp he' with heq | hmem
    · rw [heq]
      show prio v (Function.update d v (d u + w) v) ≤ prio v (d u + w)
      rw [Function.update_self]
    · have hle := h.above e' hmem
      by_cases hv : e'.position = v
      · rw [hv] at hle ⊢
        rw [Function.update_self]
        exact (hmono v hlt.le).trans hle
      · rw [Function.update_of_ne hv]
        exact hle
  · intro x hx
    by_cases hv : x = v
    · right; left
      show (⟨prio x (Function.update d v (d u + w) x), x⟩ : Entry α) ∈ _
      rw [hv, Function.update_self]
      exact List.mem_cons_self
    · rw [Function.update_of_ne hv] at hx
      rcases h.covered x hx with hbusy | hwait | ⟨hkeep, hrelaxed⟩
      · exact .inl hbusy
      · right; left
        show (⟨prio x (Function.update d v (d u + w) x), x⟩ : Entry α) ∈ _
        rw [Function.update_of_ne hv]
        exact List.mem_cons_of_mem _ hwait
      · exact .inr (.inr ⟨hkeep, relaxed_update hlt hv hrelaxed⟩)

/-- A busy vertex whose edges were all followed. -/
theorem Inv.close {u : α} (h : Inv E s cap prio keep (· = u) d heap) (hkeep : ¬ keep u)
    (hrelaxed : Relaxed E d u) : Inv E s cap prio keep (fun _ => False) d heap := by
  constructor
  · exact h.labels
  · exact h.labelled
  · exact h.above
  · intro x hx
    rcases h.covered x hx with hbusy | hcovered
    · exact .inr (.inr ⟨hbusy ▸ hkeep, hbusy ▸ hrelaxed⟩)
    · exact .inr hcovered

/-- On a walk whose end is labelled too high, a vertex waits with a label that is right. -/
theorem Inv.frontier (h : Inv E s cap prio keep (fun _ => False) d heap) {path : List α}
    {t : α} {n : Nat} (hwalk : Walk E s path t n) :
    d t ≤ n ∨ ∃ x m path' r, Waiting prio d heap x ∧ d x ≤ m ∧ Walk E x path' t r ∧
      m + r = n := by
  induction hwalk with
  | nil => exact .inl h.labels.start.le
  | @snoc path u v n w hinit he ih =>
    rcases ih with hu | ⟨x, m, path', r, hwait, hle, hrest, hsum⟩
    · by_cases hcap : d u < cap
      · rcases h.covered u hcap with hbusy | hwait | ⟨_, hrelaxed⟩
        · exact absurd hbusy id
        -- the vertex before the end waits
        · exact .inr ⟨u, n, _, w, hwait, hu, by simpa using Walk.nil.snoc he, rfl⟩
        · left
          have hle := hrelaxed w v he
          omega
      · left
        have hle := h.labels.le_cap v
        omega
    · exact .inr ⟨x, m, _, r + w, hwait, hle, hrest.snoc he, by omega⟩

theorem Inv.settled_of_empty (h : Inv E s cap prio keep (fun _ => False) d []) (v : α) :
    Settled E s d v := by
  intro path n hwalk
  rcases h.frontier hwalk with hle | ⟨x, _, _, _, hwait, _⟩
  · exact hle
  · exact absurd hwait List.not_mem_nil

/-- Where estimates do not exceed what is left to the vertex of a least entry, the label of
    that vertex is its distance. -/
theorem Inv.settled_of_pop (h : Inv E s cap prio keep (fun _ => False) d heap)
    (hperm : heap.Perm (e :: rest)) (hleast : ∀ e' ∈ rest, e.cost ≤ e'.cost)
    (hlow : d e.position ≤ prio e.position (d e.position))
    (hhigh : ∀ x path r, Walk E x path e.position r → ∀ c, prio x c ≤ c + r) :
    Settled E s d e.position := by
  intro path n hwalk
  rcases h.frontier hwalk with hle | ⟨x, m, path', r, hwait, hle, hrest, hsum⟩
  · exact hle
  · have habove := h.above e (hperm.mem_iff.mpr List.mem_cons_self)
    have hcost : e.cost ≤ prio x (d x) := by
      rcases List.mem_cons.mp (hperm.mem_iff.mp hwait) with heq | hmem
      · rw [← heq]
      · exact hleast _ hmem
    have hestimate := hhigh x path' r hrest (d x)
    omega

end

/-! ### The length of a run -/

section

variable {d : α → Nat} {heap rest : List (Entry α)}

/-- Falls with every entry that is taken, and does not grow with a label that is lowered. -/
def potential (nodes : Finset α) (d : α → Nat) (heap : List (Entry α)) : Nat :=
  2 * ∑ x ∈ nodes, d x + heap.length

theorem potential_start [DecidableEq α] (nodes : Finset α) (cap : Nat) (s : α) (e : Entry α) :
    potential nodes (Function.update (fun _ => cap) s 0) [e] ≤ 2 * (nodes.card * cap) + 1 := by
  have hsum : ∑ x ∈ nodes, Function.update (fun _ => cap) s 0 x ≤ nodes.card * cap := by
    apply Finset.sum_le_card_nsmul
    intro x _
    by_cases hx : x = s
    · rw [hx, Function.update_self]
      exact Nat.zero_le _
    · rw [Function.update_of_ne hx]
  unfold potential
  rw [List.length_singleton]
  omega

theorem potential_perm (nodes : Finset α) (d : α → Nat) {e : Entry α} (h : heap.Perm (e :: rest)) :
    potential nodes d heap = potential nodes d rest + 1 := by
  have hlen := h.length_eq
  rw [List.length_cons] at hlen
  unfold potential
  omega

theorem potential_relax [DecidableEq α] {nodes : Finset α} {v : α} {c : Nat} {e : Entry α}
    (hv : v ∈ nodes) (hlt : c < d v) :
    potential nodes (Function.update d v c) (e :: heap) ≤ potential nodes d heap := by
  have hsum : ∑ x ∈ nodes, Function.update d v c x + d v = ∑ x ∈ nodes, d x + c := by
    rw [Finset.sum_update_of_mem hv, ← Finset.add_sum_erase nodes d hv,
      Finset.sdiff_singleton_eq_erase]
    omega
  unfold potential
  rw [List.length_cons]
  omega

end

/-! ### Predecessors -/

section

variable {E : α → Nat → α → Prop} {s : α} {cap : Nat} {d : α → Nat} {parent : α → Option α}
  {v : α} {p : List α}

/-- The vertices from `v` back to `s`. -/
inductive Chain (parent : α → Option α) (s : α) : α → List α → Prop where
  | root (h : parent s = none) : Chain parent s s [s]
  | link {u v : α} {p : List α} (hv : parent v = some u) (h : Chain parent s u p) :
      Chain parent s v (v :: p)

/-- The predecessors of the labelled vertices lead back to `s` along edges that the labels
    respect. -/
structure Links (E : α → Nat → α → Prop) (s : α) (cap : Nat) (d : α → Nat)
    (parent : α → Option α) : Prop where
  rooted : ∀ v, d v < cap → ∃ p, Chain parent s v p
  edge : ∀ u v, parent v = some u → ∃ w, E u w v ∧ d u + w ≤ d v

theorem Links.start [DecidableEq α] :
    Links E s cap (Function.update (fun _ => cap) s 0) (fun _ => none) := by
  constructor
  · intro v hv
    by_cases hs : v = s
    · rw [hs]
      exact ⟨_, .root rfl⟩
    · rw [Function.update_of_ne hs] at hv
      omega
  · intro u v h
    cases h

/-- Labels do not grow towards the root. -/
theorem Links.le_of_mem (h : Links E s cap d parent) (hchain : Chain parent s v p) :
    ∀ x ∈ p, d x ≤ d v := by
  induction hchain with
  | root _ =>
    intro x hx
    rw [List.mem_singleton.mp hx]
  | @link u v p hv _ ih =>
    intro x hx
    obtain ⟨w, _, hle⟩ := h.edge u v hv
    rcases List.mem_cons.mp hx with rfl | hx
    · exact le_rfl
    · have hu := ih x hx
      omega

theorem Chain.update [DecidableEq α] {x : α} {r : Option α} (h : Chain parent s v p)
    (hx : x ∉ p) : Chain (Function.update parent x r) s v p := by
  induction h with
  | root hs =>
    apply Chain.root
    rw [Function.update_of_ne (Ne.symm (fun heq => hx (List.mem_singleton.mpr heq)))]
    exact hs
  | @link u v p hv _ ih =>
    obtain ⟨hne, hnot⟩ := not_or.mp (fun h => hx (List.mem_cons.mpr h))
    apply Chain.link _ (ih hnot)
    rw [Function.update_of_ne (Ne.symm hne)]
    exact hv

/-- Lowering a label makes a new predecessor; it is no descendant of the vertex, whose label
    was above its own. -/
theorem Links.relax [DecidableEq α] (h : Links E s cap d parent) {u : α} {w : Nat}
    (he : E u w v) (hu : d u < cap) (hstart : d s = 0) (hlt : d u + w < d v) :
    Links E s cap (Function.update d v (d u + w)) (Function.update parent v (some u)) := by
  obtain ⟨p, hchain⟩ := h.rooted u hu
  have hnot : v ∉ p := by
    intro hv
    have hle := h.le_of_mem hchain v hv
    omega
  have hnew : Chain (Function.update parent v (some u)) s v (v :: p) :=
    .link (Function.update_self ..) (hchain.update hnot)
  have hne : u ≠ v := by
    intro heq
    rw [heq] at hlt
    omega
  constructor
  · intro x hx
    by_cases hxv : x = v
    · rw [hxv]
      exact ⟨_, hnew⟩
    · rw [Function.update_of_ne hxv] at hx
      obtain ⟨q, hq⟩ := h.rooted x hx
      clear hx hxv
      -- the old chain as far as `v`, and the new one from there
      induction hq with
      | root hs =>
        refine ⟨_, .root ?_⟩
        rw [Function.update_of_ne]
        · exact hs
        · intro heq
          rw [← heq] at hlt
          omega
      | @link y x q hy _ ih =>
        by_cases hxv : x = v
        · rw [hxv]
          exact ⟨_, hnew⟩
        · obtain ⟨q', hq'⟩ := ih
          refine ⟨_, .link ?_ hq'⟩
          rw [Function.update_of_ne hxv]
          exact hy
  · intro y x hy
    by_cases hxv : x = v
    · rw [hxv, Function.update_self, Option.some.injEq] at hy
      rw [hxv, ← hy, Function.update_self, Function.update_of_ne hne]
      exact ⟨w, he, le_rfl⟩
    · rw [Function.update_of_ne hxv] at hy ⊢
      obtain ⟨w', he', hle⟩ := h.edge y x hy
      refine ⟨w', he', ?_⟩
      by_cases hyv : y = v
      · rw [hyv, Function.update_self]
        rw [hyv] at hle
        omega
      · rw [Function.update_of_ne hyv]
        exact hle

/-- The path of the predecessors is a walk, no longer than the label. -/
theorem Links.exists_walk (h : Links E s cap d parent) (hchain : Chain parent s v p) :
    ∃ n, n ≤ d v ∧ Walk E s p.reverse v n := by
  induction hchain with
  | root _ => exact ⟨0, Nat.zero_le _, .nil⟩
  | @link u v p hv _ ih =>
    obtain ⟨n, hn, hwalk⟩ := ih
    obtain ⟨w, he, hle⟩ := h.edge u v hv
    refine ⟨n + w, by omega, ?_⟩
    rw [List.reverse_cons]
    exact hwalk.snoc he

theorem Chain.unique {q : List α} (h : Chain parent s v p) (h' : Chain parent s v q) :
    p = q := by
  induction h generalizing q with
  | root hs =>
    cases h' with
    | root _ => rfl
    | link hv _ => rw [hs] at hv; cases hv
  | link hv _ ih =>
    cases h' with
    | root hs => rw [hs] at hv; cases hv
    | link hv' h' =>
      rw [hv] at hv'
      cases hv'
      rw [ih h']

theorem Chain.of_mem {x : α} (h : Chain parent s v p) (hx : x ∈ p) :
    ∃ q, Chain parent s x q ∧ q.length ≤ p.length := by
  induction h with
  | root hs =>
    rw [List.mem_singleton.mp hx]
    exact ⟨_, .root hs, le_rfl⟩
  | link hv hu ih =>
    rcases List.mem_cons.mp hx with rfl | hx
    · exact ⟨_, .link hv hu, le_rfl⟩
    · obtain ⟨q, hq, hlen⟩ := ih hx
      exact ⟨q, hq, hlen.trans (by simp)⟩

theorem Chain.nodup (h : Chain parent s v p) : p.Nodup := by
  induction h with
  | root _ => exact List.nodup_singleton _
  | @link u v p hv hu ih =>
    apply List.nodup_cons.mpr
    refine ⟨?_, ih⟩
    intro hmem
    -- a vertex on its own chain would have two chains
    obtain ⟨q, hq, hlen⟩ := hu.of_mem hmem
    have heq := hq.unique (.link hv hu)
    rw [heq, List.length_cons] at hlen
    omega

theorem Chain.length_le [DecidableEq α] (h : Chain parent s v p) {nodes : Finset α}
    (hs : s ∈ nodes) (hnodes : ∀ u x, parent x = some u → x ∈ nodes) : p.length ≤ nodes.card := by
  have hsub : p.toFinset ⊆ nodes := by
    intro x hx
    rw [List.mem_toFinset] at hx
    obtain ⟨q, hq, _⟩ := h.of_mem hx
    cases hq with
    | root _ => exact hs
    | link hx _ => exact hnodes _ _ hx
  have hcard := Finset.card_le_card hsub
  rwa [List.toFinset_card_of_nodup h.nodup] at hcard

end

/-! ### The edges of one vertex -/

structure State (α : Type*) where
  label : α → Nat
  parent : α → Option α
  heap : List (Entry α)

/-- An edge from `u` is followed. -/
def lower [DecidableEq α] (prio : α → Nat → Nat) (u : α) (st : State α) (edge : α × Nat) :
    State α :=
  let (v, w) := edge
  if st.label u + w < st.label v then
    { label := Function.update st.label v (st.label u + w)
      parent := Function.update st.parent v (some u)
      heap := ⟨prio v (st.label u + w), v⟩ :: st.heap }
  else st

def follow [DecidableEq α] (prio : α → Nat → Nat) (u : α) (row : List (α × Nat))
    (st : State α) : State α :=
  row.foldl (lower prio u) st

/-- The invariant of a search that keeps predecessors. -/
structure Sound (E : α → Nat → α → Prop) (s : α) (cap : Nat) (prio : α → Nat → Nat)
    (keep busy : α → Prop) (st : State α) : Prop where
  inv : Inv E s cap prio keep busy st.label st.heap
  links : Links E s cap st.label st.parent

section

variable [DecidableEq α] {E : α → Nat → α → Prop} {s : α} {cap : Nat} {prio : α → Nat → Nat}
  {keep busy : α → Prop} {st : State α}

theorem lower_label_self (prio : α → Nat → Nat) (u : α) (st : State α) (edge : α × Nat) :
    (lower prio u st edge).label u = st.label u := by
  obtain ⟨v, w⟩ := edge
  unfold lower
  by_cases hlt : st.label u + w < st.label v
  · have hne : u ≠ v := by
      intro heq
      rw [heq] at hlt
      omega
    simp only [hlt, if_true]
    exact Function.update_of_ne hne ..
  · simp only [hlt, if_false]

theorem follow_label_self (u : α) (row : List (α × Nat)) (st : State α) :
    (follow prio u row st).label u = st.label u := by
  induction row generalizing st with
  | nil => rfl
  | cons edge row ih =>
    show (follow prio u row (lower prio u st edge)).label u = st.label u
    rw [ih, lower_label_self]

theorem lower_label_le (u : α) (st : State α) (edge : α × Nat) (x : α) :
    (lower prio u st edge).label x ≤ st.label x := by
  obtain ⟨v, w⟩ := edge
  unfold lower
  by_cases hlt : st.label u + w < st.label v
  · simp only [hlt, if_true]
    by_cases hx : x = v
    · rw [hx, Function.update_self]
      exact hlt.le
    · rw [Function.update_of_ne hx]
  · simp only [hlt, if_false]
    exact le_rfl

theorem follow_label_le (u : α) (row : List (α × Nat)) (st : State α) (x : α) :
    (follow prio u row st).label x ≤ st.label x := by
  induction row generalizing st with
  | nil => exact le_rfl
  | cons edge row ih => exact (ih (lower prio u st edge)).trans (lower_label_le u st edge x)

variable {row : List (α × Nat)}

/-- What an edge allows is not exceeded once it was followed. -/
theorem follow_label_mem {u : α} (st : State α) {edge : α × Nat} (h : edge ∈ row) :
    (follow prio u row st).label edge.1 ≤ st.label u + edge.2 := by
  induction row generalizing st with
  | nil => cases h
  | cons first row ih =>
    rcases List.mem_cons.mp h with rfl | hmem
    · apply (follow_label_le u row _ _).trans
      unfold lower
      by_cases hlt : st.label u + edge.2 < st.label edge.1
      · simp only [hlt, if_true, Function.update_self, le_refl]
      · simp only [hlt, if_false]
        exact Nat.le_of_not_lt hlt
    · have hle := ih (lower prio u st first) hmem
      rwa [lower_label_self] at hle

theorem potential_lower {nodes : Finset α} (u : α) (st : State α) {edge : α × Nat}
    (h : edge.1 ∈ nodes) :
    potential nodes (lower prio u st edge).label (lower prio u st edge).heap ≤
      potential nodes st.label st.heap := by
  obtain ⟨v, w⟩ := edge
  unfold lower
  by_cases hlt : st.label u + w < st.label v
  · simp only [hlt, if_true]
    exact potential_relax h hlt
  · simp only [hlt, if_false]
    exact le_rfl

theorem potential_follow {nodes : Finset α} (prio : α → Nat → Nat) (u : α) (st : State α)
    (h : ∀ edge ∈ row, edge.1 ∈ nodes) :
    potential nodes (follow prio u row st).label (follow prio u row st).heap ≤
      potential nodes st.label st.heap := by
  induction row generalizing st with
  | nil => exact le_rfl
  | cons edge row ih =>
    apply (ih (lower prio u st edge) fun e he => h e (List.mem_cons_of_mem _ he)).trans
    exact potential_lower u st (h edge List.mem_cons_self)

theorem Sound.of_lower (h : Sound E s cap prio keep busy st) (hmono : ∀ x, Monotone (prio x))
    {u : α} (hu : st.label u < cap) {edge : α × Nat} (he : E u edge.2 edge.1) :
    Sound E s cap prio keep busy (lower prio u st edge) := by
  obtain ⟨v, w⟩ := edge
  unfold lower
  by_cases hlt : st.label u + w < st.label v
  · simp only [hlt, if_true]
    exact ⟨h.inv.relax hmono he hu hlt, h.links.relax he hu h.inv.labels.start hlt⟩
  · simp only [hlt, if_false]
    exact h

theorem Sound.of_follow (h : Sound E s cap prio keep busy st) (hmono : ∀ x, Monotone (prio x))
    {u : α} (hu : st.label u < cap) (hrow : ∀ edge ∈ row, E u edge.2 edge.1) :
    Sound E s cap prio keep busy (follow prio u row st) := by
  induction row generalizing st with
  | nil => exact h
  | cons edge row ih =>
    have hnext := h.of_lower hmono hu (hrow edge List.mem_cons_self)
    apply ih hnext
    · rw [lower_label_self]
      exact hu
    · intro e he
      exact hrow e (List.mem_cons_of_mem _ he)

theorem Sound.start (hcap : 0 < cap) :
    Sound E s cap prio keep (fun _ => False)
      ⟨Function.update (fun _ => cap) s 0, fun _ => none, [⟨prio s 0, s⟩]⟩ :=
  ⟨.start hcap, .start⟩

/-- A vertex is taken and all of its edges are followed. -/
theorem Sound.expand {label : α → Nat} {parent : α → Option α} {heap rest : List (Entry α)}
    {e : Entry α} (h : Sound E s cap prio keep (fun _ => False) ⟨label, parent, heap⟩)
    (hmono : ∀ x, Monotone (prio x)) (hperm : heap.Perm (e :: rest)) (hkeep : ¬ keep e.position)
    (hrow : ∀ v w, (v, w) ∈ row ↔ E e.position w v) :
    Sound E s cap prio keep (fun _ => False)
      (follow prio e.position row ⟨label, parent, rest⟩) := by
  have htaken : Sound E s cap prio keep (· = e.position) ⟨label, parent, rest⟩ :=
    ⟨h.inv.take hperm, h.links⟩
  have hlabel := h.inv.labelled e (hperm.mem_iff.mpr List.mem_cons_self)
  have hfollow := htaken.of_follow hmono hlabel fun edge he => (hrow edge.1 edge.2).mp he
  refine ⟨hfollow.inv.close hkeep ?_, hfollow.links⟩
  intro w v he
  rw [follow_label_self]
  exact follow_label_mem _ ((hrow v w).mpr he)

end

end BestFirst
