import Mathlib.Algebra.Order.BigOperators.Group.Finset
import Canon.Lib.Maps
import Canon.Lib.Sweep
import Canon.Lib.Walks

/-! # Dominators

    `dominators.rs` starts with the set of all nodes everywhere but at the entry, and
    shrinks the sets in place until none changes: greatest sets such that a node's
    dominators are itself and what dominates all its predecessors.

    * `dominators`, `postDominators`,
    * `Inv`: what every visit keeps,
    * `dominators_correct`: the result is the set of inevitable nodes.
-/

namespace Canon.Algorithms

open Walks

/-! ### Model -/

/-- A vector of hash sets; only their elements matter. -/
abbrev DomSets := List (Finset Nat)

/-- The set of a node.  An index out of range panics; predecessors are in range. -/
def DomSets.at (dom : DomSets) (n : Nat) : Finset Nat := dom.getD n ∅

def predsOf (preds : FMap Nat (List Nat)) (n : Nat) : List Nat := (preds n).getD []

section Dominators

variable (nodeCount : Nat) (preds : FMap Nat (List Nat)) (entry : Nat)

def newDom (dom : DomSets) (n : Nat) : Finset Nat :=
  insert n (match predsOf preds n with
    | [] => Finset.range nodeCount
    | first :: rest => rest.foldl (fun acc p => acc ∩ dom.at p) (dom.at first))

/-- One round of the inner loop; nothing when the set stays as it is. -/
def visitNode (dom : DomSets) (n : Nat) : Option DomSets :=
  if n = entry then none
  else if newDom nodeCount preds dom n ≠ dom.at n then
    some (dom.set n (newDom nodeCount preds dom n))
  else none

def initialDom : DomSets := (List.replicate nodeCount (Finset.range nodeCount)).set entry {entry}

/-- The `while` loop runs as long as the fuel lasts. -/
def dominators (fuel : Nat) : Option DomSets :=
  Sweep.settle (visitNode nodeCount preds entry) (List.range nodeCount) fuel
    (initialDom nodeCount entry)

end Dominators

/-- The predecessor map of `post_dominators`, entry by entry. -/
def pushPred (preds : FMap Nat (List Nat)) (key pred : Nat) : FMap Nat (List Nat) :=
  preds.insert key (predsOf preds key ++ [pred])

def postPreds (nodeCount : Nat) (succs : List (List Nat)) (exitNodes : List Nat) :
    FMap Nat (List Nat) :=
  let superExit := nodeCount
  let preds := (List.range nodeCount).foldl
    (fun preds v => (succs.getD v []).foldl (fun preds w => pushPred preds w v) preds) FMap.empty
  exitNodes.foldl (fun preds e => pushPred preds e superExit) preds

def postDominators (nodeCount : Nat) (succs : List (List Nat)) (exitNodes : List Nat)
    (fuel : Nat) : Option DomSets :=
  dominators (nodeCount + 1) (postPreds nodeCount succs exitNodes) nodeCount fuel

/-! ### One visit -/

/-- The edges of a predecessor map. -/
def PredEdge (preds : FMap Nat (List Nat)) (p n : Nat) : Prop := p ∈ predsOf preds n

section Visit

variable {nodeCount : Nat} {preds : FMap Nat (List Nat)} {entry : Nat} {dom dom' : DomSets}
  {n d : Nat}

theorem mem_foldl_inter (dom : DomSets) (rest : List Nat) (acc : Finset Nat) (d : Nat) :
    d ∈ rest.foldl (fun acc p => acc ∩ dom.at p) acc ↔ d ∈ acc ∧ ∀ p ∈ rest, d ∈ dom.at p := by
  induction rest generalizing acc with
  | nil => simp
  | cons p rest ih =>
    rw [List.foldl_cons, ih, Finset.mem_inter, List.forall_mem_cons, and_assoc]

theorem mem_newDom_iff :
    d ∈ newDom nodeCount preds dom n ↔ d = n ∨ (predsOf preds n = [] ∧ d < nodeCount) ∨
      (predsOf preds n ≠ [] ∧ ∀ p, PredEdge preds p n → d ∈ dom.at p) := by
  unfold newDom PredEdge
  rw [Finset.mem_insert]
  apply or_congr_right
  cases predsOf preds n with
  | nil => simp
  | cons first rest =>
    simp only [mem_foldl_inter]
    simp

theorem newDom_mono (h : ∀ p, dom.at p ⊆ dom'.at p) (n : Nat) :
    newDom nodeCount preds dom n ⊆ newDom nodeCount preds dom' n := by
  intro d
  rw [mem_newDom_iff, mem_newDom_iff]
  rintro (hself | hnone | ⟨hsome, hall⟩)
  · exact .inl hself
  · exact .inr (.inl hnone)
  · exact .inr (.inr ⟨hsome, fun p hp => h p (hall p hp)⟩)

theorem at_set (h : n < dom.length) (s : Finset Nat) (v : Nat) :
    DomSets.at (dom.set n s) v = if v = n then s else dom.at v := by
  unfold DomSets.at
  rw [List.getD_eq_getElem?_getD, List.getD_eq_getElem?_getD, List.getElem?_set]
  by_cases hv : n = v
  · subst hv
    simp [h]
  · simp [hv, Ne.symm hv]

/-- What every visit keeps: the sets hold the inevitable nodes and what is computed for
    them from the others. -/
structure Inv (nodeCount : Nat) (preds : FMap Nat (List Nat)) (entry : Nat) (dom : DomSets) :
    Prop where
  length : dom.length = nodeCount
  atEntry : dom.at entry = {entry}
  within : ∀ v, dom.at v ⊆ Finset.range nodeCount
  above : ∀ v < nodeCount, ∀ d < nodeCount, Inevitable (PredEdge preds) entry v d → d ∈ dom.at v
  shrinking : ∀ v < nodeCount, v ≠ entry → newDom nodeCount preds dom v ⊆ dom.at v

/-- All predecessors are nodes. -/
def InRange (nodeCount : Nat) (preds : FMap Nat (List Nat)) : Prop :=
  ∀ p n, PredEdge preds p n → p < nodeCount

theorem inv_initial (hentry : entry < nodeCount) :
    Inv nodeCount preds entry (initialDom nodeCount entry) := by
  have hat : ∀ v, (initialDom nodeCount entry).at v =
      if v = entry then {entry} else if v < nodeCount then Finset.range nodeCount else ∅ := by
    intro v
    unfold initialDom
    rw [at_set (by simpa using hentry)]
    split
    · rfl
    · unfold DomSets.at
      rw [List.getD_eq_getElem?_getD, List.getElem?_replicate]
      split <;> rfl
  refine ⟨by simp [initialDom], by simp [hat], ?_, ?_, ?_⟩
  · intro v
    rw [hat]
    split
    · simpa using hentry
    · split
      · exact Finset.Subset.refl _
      · exact Finset.empty_subset _
  · intro v hv d hd hinevitable
    rw [hat]
    split
    · rename_i hsame
      rw [hsame, inevitable_self_iff] at hinevitable
      simpa using hinevitable
    · simpa [hv] using hd
  · intro v hv hne
    rw [hat, if_neg hne, if_pos hv]
    intro d
    rw [mem_newDom_iff, Finset.mem_range]
    rintro (rfl | ⟨-, hd⟩ | ⟨hsome, hall⟩)
    · exact hv
    · exact hd
    · obtain ⟨p, hp⟩ := List.exists_mem_of_ne_nil _ hsome
      have hmem := hall p hp
      rw [hat] at hmem
      split at hmem
      · rw [Finset.mem_singleton.mp hmem]
        exact hentry
      · split at hmem
        · simpa using hmem
        · simp at hmem

theorem Inv.visit (hrange : InRange nodeCount preds) (h : Inv nodeCount preds entry dom)
    (hn : n < nodeCount) (hvisit : visitNode nodeCount preds entry dom n = some dom') :
    Inv nodeCount preds entry dom' ∧ dom'.at n ⊂ dom.at n ∧ ∀ v, v ≠ n → dom'.at v = dom.at v := by
  unfold visitNode at hvisit
  split at hvisit
  · cases hvisit
  · rename_i hne
    split at hvisit
    · rename_i hchanged
      obtain rfl := Option.some.inj hvisit
      have hlength : n < dom.length := by
        rw [h.length]
        exact hn
      have hat := at_set hlength (newDom nodeCount preds dom n)
      have hself : DomSets.at (dom.set n (newDom nodeCount preds dom n)) n =
          newDom nodeCount preds dom n := by
        rw [hat, if_pos rfl]
      have hother : ∀ v, v ≠ n →
          DomSets.at (dom.set n (newDom nodeCount preds dom n)) v = dom.at v := by
        intro v hv
        rw [hat, if_neg hv]
      have hsub := h.shrinking n hn hne
      have hle : ∀ v, DomSets.at (dom.set n (newDom nodeCount preds dom n)) v ⊆ dom.at v := by
        intro v
        by_cases hv : v = n
        · rw [hv, hself]
          exact hsub
        · rw [hother v hv]
      refine ⟨⟨?_, ?_, ?_, ?_, ?_⟩, ?_, hother⟩
      · rw [List.length_set, h.length]
      · rw [hother entry (Ne.symm hne), h.atEntry]
      · intro v
        exact (hle v).trans (h.within v)
      · intro v hv d hd hinevitable
        by_cases hvn : v = n
        · subst hvn
          rw [hself, mem_newDom_iff]
          by_cases hdv : d = v
          · exact .inl hdv
          · right
            by_cases hnone : predsOf preds v = []
            · exact .inl ⟨hnone, hd⟩
            · refine .inr ⟨hnone, ?_⟩
              intro p hp
              exact h.above p (hrange p v hp) d hd (hinevitable.before hp hdv)
        · rw [hother v hvn]
          exact h.above v hv d hd hinevitable
      · intro v hv hve
        have hmono := @newDom_mono nodeCount preds _ _ hle v
        by_cases hvn : v = n
        · subst hvn
          rw [hself]
          exact hmono
        · rw [hother v hvn]
          exact hmono.trans (h.shrinking v hv hve)
      · rw [hself]
        exact Finset.ssubset_iff_subset_ne.mpr ⟨hsub, hchanged⟩
    · cases hvisit

/-! ### The loop -/

/-- The sizes of the sets together. -/
def domSize (nodeCount : Nat) (dom : DomSets) : Nat :=
  ∑ v ∈ Finset.range nodeCount, (dom.at v).card

theorem Inv.visit_lt (hrange : InRange nodeCount preds) (h : Inv nodeCount preds entry dom)
    (hn : n < nodeCount) (hvisit : visitNode nodeCount preds entry dom n = some dom') :
    domSize nodeCount dom' < domSize nodeCount dom := by
  obtain ⟨-, hless, hother⟩ := h.visit hrange hn hvisit
  refine Finset.sum_lt_sum ?_ ⟨n, Finset.mem_range.mpr hn, Finset.card_lt_card hless⟩
  intro v _
  by_cases hv : v = n
  · rw [hv]
    exact Finset.card_le_card hless.subset
  · rw [hother v hv]

theorem domSize_le (h : Inv nodeCount preds entry dom) :
    domSize nodeCount dom ≤ nodeCount * nodeCount := by
  have hcard : ∀ v ∈ Finset.range nodeCount, (dom.at v).card ≤ nodeCount := by
    intro v _
    have hle := Finset.card_le_card (h.within v)
    rwa [Finset.card_range] at hle
  have hsum := Finset.sum_le_card_nsmul _ _ _ hcard
  simpa [domSize] using hsum

/-- The loop ends with sets no visit changes. -/
theorem dominators_settles (hrange : InRange nodeCount preds) (hentry : entry < nodeCount)
    {fuel : Nat} (hfuel : nodeCount * nodeCount < fuel) :
    ∃ dom, dominators nodeCount preds entry fuel = some dom ∧ Inv nodeCount preds entry dom ∧
      ∀ n < nodeCount, n ≠ entry → newDom nodeCount preds dom n = dom.at n := by
  have hinit := @inv_initial nodeCount preds entry hentry
  have hkeep : ∀ s t, ∀ n ∈ List.range nodeCount, Inv nodeCount preds entry s →
      visitNode nodeCount preds entry s n = some t → Inv nodeCount preds entry t :=
    fun s t n hn hs hvisit => (hs.visit hrange (List.mem_range.mp hn) hvisit).1
  have hlower : ∀ s t, ∀ n ∈ List.range nodeCount, Inv nodeCount preds entry s →
      visitNode nodeCount preds entry s n = some t → domSize nodeCount t < domSize nodeCount s :=
    fun s t n hn hs hvisit => hs.visit_lt hrange (List.mem_range.mp hn) hvisit
  obtain ⟨dom, hsettled, hinv, hstill⟩ := Sweep.settle_spec hkeep hlower hinit
    (Nat.lt_of_le_of_lt (domSize_le hinit) hfuel)
  refine ⟨dom, hsettled, hinv, ?_⟩
  intro n hn hne
  have hvisit := hstill n (List.mem_range.mpr hn)
  unfold visitNode at hvisit
  rw [if_neg hne] at hvisit
  by_contra hchanged
  rw [if_pos hchanged] at hvisit
  cases hvisit

theorem walk_inRange (hrange : InRange nodeCount preds) {u v : Nat} {nodes : List Nat}
    (h : Walk (PredEdge preds) u v nodes) (hv : v < nodeCount) : ∀ d ∈ nodes, d < nodeCount := by
  induction h with
  | start =>
    intro d hd
    rw [List.mem_singleton.mp hd]
    exact hv
  | step hwalk hedge ih =>
    intro d hd
    rcases List.mem_append.mp hd with hd | hd
    · exact ih (hrange _ _ hedge) d hd
    · rw [List.mem_singleton.mp hd]
      exact hv

/-- Sets no visit changes hold just the inevitable nodes. -/
theorem Inv.mem_iff (h : Inv nodeCount preds entry dom)
    (hstill : ∀ n < nodeCount, n ≠ entry → newDom nodeCount preds dom n = dom.at n) {v : Nat}
    (hv : v < nodeCount) (d : Nat) :
    d ∈ dom.at v ↔ d < nodeCount ∧ Inevitable (PredEdge preds) entry v d := by
  constructor
  · intro hd
    refine ⟨Finset.mem_range.mp (h.within v hd), ?_⟩
    refine @inevitable_of_carried _ _ _ _ _ (fun v d => d ∈ dom.at v) ?_ ?_ hd
    · intro d hd
      rw [h.atEntry] at hd
      exact Finset.mem_singleton.mp hd
    · intro v w d _ hedge hd
      by_cases hw : w = entry
      · rw [hw, h.atEntry] at hd
        rw [hw]
        exact .inl (Finset.mem_singleton.mp hd)
      · by_cases hwn : w < nodeCount
        · rw [← hstill w hwn hw, mem_newDom_iff] at hd
          rcases hd with hself | ⟨hnone, -⟩ | ⟨-, hall⟩
          · exact .inl hself
          · unfold PredEdge at hedge
            rw [hnone] at hedge
            cases hedge
          · exact .inr (hall v hedge)
        · have hempty : dom.at w = ∅ := by
            unfold DomSets.at
            have hnone : dom[w]? = none := List.getElem?_eq_none (by rw [h.length]; omega)
            rw [List.getD_eq_getElem?_getD, hnone]
            rfl
          rw [hempty] at hd
          simp at hd
  · rintro ⟨hd, hinevitable⟩
    exact h.above v hv d hd hinevitable

end Visit

/-! ### The result -/

/-- The sets of the dominators. -/
structure AreDominators (nodeCount : Nat) (preds : FMap Nat (List Nat)) (entry : Nat)
    (dom : DomSets) : Prop where
  length : dom.length = nodeCount
  reachable : ∀ v < nodeCount, Reaches (PredEdge preds) entry v →
    ∀ d, d ∈ dom.at v ↔ Inevitable (PredEdge preds) entry v d
  unreachable : ∀ v < nodeCount, ¬ Reaches (PredEdge preds) entry v →
    dom.at v = Finset.range nodeCount

theorem Inv.areDominators {nodeCount : Nat} {preds : FMap Nat (List Nat)} {entry : Nat}
    {dom : DomSets} (hrange : InRange nodeCount preds) (h : Inv nodeCount preds entry dom)
    (hstill : ∀ n < nodeCount, n ≠ entry → newDom nodeCount preds dom n = dom.at n) :
    AreDominators nodeCount preds entry dom where
  length := h.length
  reachable := by
    rintro v hv ⟨nodes, hwalk⟩ d
    rw [h.mem_iff hstill hv]
    constructor
    · exact fun hd => hd.2
    · intro hinevitable
      exact ⟨walk_inRange hrange hwalk hv d (hinevitable nodes hwalk), hinevitable⟩
  unreachable := by
    intro v hv hno
    ext d
    rw [h.mem_iff hstill hv, Finset.mem_range]
    constructor
    · exact fun hd => hd.1
    · intro hd
      exact ⟨hd, fun nodes hwalk => absurd ⟨nodes, hwalk⟩ hno⟩

/-- The loop ends; at a node that is reachable the set holds the nodes that lie on every
    path from the entry, at any other node it holds all nodes. -/
theorem dominators_correct (nodeCount : Nat) (preds : FMap Nat (List Nat)) (entry : Nat)
    (hrange : InRange nodeCount preds) (hentry : entry < nodeCount) :
    ∃ dom, (∀ fuel > nodeCount * nodeCount, dominators nodeCount preds entry fuel = some dom) ∧
      AreDominators nodeCount preds entry dom := by
  obtain ⟨dom, hsettled, hinv, hstill⟩ :=
    dominators_settles hrange hentry (Nat.lt_succ_self (nodeCount * nodeCount))
  refine ⟨dom, ?_, hinv.areDominators hrange hstill⟩
  intro fuel hfuel
  exact Sweep.settle_mono hsettled hfuel

/-- A loop behind the entry: 0 → 1 ⇄ 2. -/
def loopPreds : FMap Nat (List Nat) := (FMap.empty.insert 1 [0, 2]).insert 2 [1]

theorem dominators_correct_loop :
    ∃ dom, (∀ fuel > 3 * 3, dominators 3 loopPreds 0 fuel = some dom) ∧
      AreDominators 3 loopPreds 0 dom := by
  refine dominators_correct 3 loopPreds 0 ?_ (by decide)
  intro p n hp
  unfold PredEdge predsOf loopPreds at hp
  by_cases h2 : n = 2
  · subst h2
    simp at hp
    omega
  · by_cases h1 : n = 1
    · subst h1
      simp at hp
      omega
    · simp [h1, h2] at hp

end Canon.Algorithms
