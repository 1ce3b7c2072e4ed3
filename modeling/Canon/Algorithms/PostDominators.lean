import Canon.Algorithms.Dominators

/-! # Post-dominators

    `post_dominators` hands a predecessor map to `dominators`.  The map it builds has the
    edges of the forward graph where those of the reversed graph belong, so what is
    computed are the blocks on every path from an exit to a block.

    * `predEdge_postPreds_iff`: the edges of the map,
    * `post_dominators_iff`: when the result is right all the same.
-/

namespace Canon.Algorithms

open Walks

/-! ### The predecessor map -/

/-- An edge of the forward graph. -/
def FlowEdge (nodeCount : Nat) (succs : List (List Nat)) (v w : Nat) : Prop :=
  v < nodeCount ∧ w ∈ succs.getD v []

section Preds

variable {nodeCount : Nat} {succs : List (List Nat)} {exitNodes : List Nat} {v w d p n : Nat}
  {preds : FMap Nat (List Nat)}

theorem predEdge_pushPred_iff (preds : FMap Nat (List Nat)) (key pred p n : Nat) :
    PredEdge (pushPred preds key pred) p n ↔ PredEdge preds p n ∨ (p = pred ∧ n = key) := by
  unfold PredEdge pushPred
  by_cases hn : n = key
  · subst hn
    simp [predsOf]
  · have hsame : predsOf (preds.insert key (predsOf preds key ++ [pred])) n = predsOf preds n := by
      unfold predsOf
      rw [FMap.insert_of_ne _ _ hn]
    rw [hsame]
    simp [hn]

theorem predEdge_foldl_succs_iff (nbrs : List Nat) (preds : FMap Nat (List Nat)) (v p n : Nat) :
    PredEdge (nbrs.foldl (fun preds w => pushPred preds w v) preds) p n ↔
      PredEdge preds p n ∨ (p = v ∧ n ∈ nbrs) := by
  induction nbrs generalizing preds with
  | nil => simp
  | cons w nbrs ih =>
    rw [List.foldl_cons, ih, predEdge_pushPred_iff, List.mem_cons]
    tauto

theorem predEdge_foldl_nodes_iff (nodes : List Nat) (preds : FMap Nat (List Nat)) (p n : Nat) :
    PredEdge (nodes.foldl (fun preds v => (succs.getD v []).foldl
        (fun preds w => pushPred preds w v) preds) preds) p n ↔
      PredEdge preds p n ∨ (p ∈ nodes ∧ n ∈ succs.getD p []) := by
  induction nodes generalizing preds with
  | nil => simp
  | cons v nodes ih =>
    rw [List.foldl_cons, ih, predEdge_foldl_succs_iff, List.mem_cons]
    constructor
    · rintro ((h | ⟨rfl, h⟩) | ⟨h, h'⟩)
      · exact .inl h
      · exact .inr ⟨.inl rfl, h⟩
      · exact .inr ⟨.inr h, h'⟩
    · rintro (h | ⟨rfl | h, h'⟩)
      · exact .inl (.inl h)
      · exact .inl (.inr ⟨rfl, h'⟩)
      · exact .inr ⟨h, h'⟩

theorem predEdge_foldl_exits_iff (exits : List Nat) (preds : FMap Nat (List Nat))
    (superExit p n : Nat) :
    PredEdge (exits.foldl (fun preds e => pushPred preds e superExit) preds) p n ↔
      PredEdge preds p n ∨ (p = superExit ∧ n ∈ exits) := by
  induction exits generalizing preds with
  | nil => simp
  | cons e exits ih =>
    rw [List.foldl_cons, ih, predEdge_pushPred_iff, List.mem_cons]
    tauto

/-- The map has the edges of the forward graph as they are. -/
theorem predEdge_postPreds_iff :
    PredEdge (postPreds nodeCount succs exitNodes) p n ↔
      FlowEdge nodeCount succs p n ∨ (p = nodeCount ∧ n ∈ exitNodes) := by
  unfold postPreds FlowEdge
  dsimp only
  rw [predEdge_foldl_exits_iff, predEdge_foldl_nodes_iff]
  have hempty : ¬ PredEdge FMap.empty p n := by
    simp [PredEdge, predsOf]
  simp [hempty]

/-- Successors and exits are blocks. -/
structure IsFlowGraph (nodeCount : Nat) (succs : List (List Nat)) (exitNodes : List Nat) :
    Prop where
  succs : ∀ v w, FlowEdge nodeCount succs v w → w < nodeCount
  exits : ∀ e ∈ exitNodes, e < nodeCount

theorem inRange_postPreds :
    InRange (nodeCount + 1) (postPreds nodeCount succs exitNodes) := by
  intro p n h
  rcases predEdge_postPreds_iff.mp h with ⟨hp, -⟩ | ⟨rfl, -⟩
  · omega
  · omega

/-! ### Walks from the exits -/

/-- A walk from the synthetic exit begins with an exit. -/
theorem walk_postPreds_iff (hgraph : IsFlowGraph nodeCount succs exitNodes)
    (hv : v < nodeCount) (nodes : List Nat) :
    Walk (PredEdge (postPreds nodeCount succs exitNodes)) nodeCount v nodes ↔
      ∃ e ∈ exitNodes, ∃ rest, nodes = nodeCount :: rest ∧
        Walk (FlowEdge nodeCount succs) e v rest := by
  constructor
  · intro h
    have hgeneral : ∀ {w nodes}, Walk (PredEdge (postPreds nodeCount succs exitNodes)) nodeCount w
        nodes → (w = nodeCount ∧ nodes = [nodeCount]) ∨
          ∃ e ∈ exitNodes, ∃ rest, nodes = nodeCount :: rest ∧
            Walk (FlowEdge nodeCount succs) e w rest := by
      intro w nodes hwalk
      induction hwalk with
      | start => exact .inl ⟨rfl, rfl⟩
      | @step p w nodes hwalk hedge ih =>
        right
        rcases predEdge_postPreds_iff.mp hedge with hflow | ⟨rfl, hexit⟩
        · rcases ih with ⟨rfl, -⟩ | ⟨e, he, rest, rfl, hrest⟩
          · exact absurd hflow.1 (Nat.lt_irrefl _)
          · exact ⟨e, he, rest ++ [w], rfl, hrest.step hflow⟩
        · rcases ih with ⟨-, rfl⟩ | ⟨e, he, rest, rfl, hrest⟩
          · exact ⟨w, hexit, [w], rfl, .start⟩
          -- No walk of the forward graph ends at the synthetic exit.
          · cases hrest with
            | start => exact absurd (hgraph.exits _ he) (Nat.lt_irrefl _)
            | step _ hlast => exact absurd (hgraph.succs _ _ hlast) (Nat.lt_irrefl _)
    rcases hgeneral h with ⟨rfl, -⟩ | hexit
    · exact absurd hv (Nat.lt_irrefl _)
    · exact hexit
  · rintro ⟨e, he, rest, rfl, hwalk⟩
    have hedge : PredEdge (postPreds nodeCount succs exitNodes) nodeCount e :=
      predEdge_postPreds_iff.mpr (.inr ⟨rfl, he⟩)
    have hlift : ∀ {w rest}, Walk (FlowEdge nodeCount succs) e w rest →
        Walk (PredEdge (postPreds nodeCount succs exitNodes)) e w rest := by
      intro w rest h
      induction h with
      | start => exact .start
      | step _ hflow ih => exact ih.step (predEdge_postPreds_iff.mpr (.inl hflow))
    exact (hlift hwalk).cons hedge

/-- Some exit leads to the block. -/
def BehindExit (nodeCount : Nat) (succs : List (List Nat)) (exitNodes : List Nat) (v : Nat) :
    Prop :=
  ∃ e ∈ exitNodes, Reaches (FlowEdge nodeCount succs) e v

/-- The block lies on every path from an exit to `v`. -/
def OnEveryFromExit (nodeCount : Nat) (succs : List (List Nat)) (exitNodes : List Nat)
    (v b : Nat) : Prop :=
  ∀ e ∈ exitNodes, Inevitable (FlowEdge nodeCount succs) e v b

/-- The block lies on every path from `v` to an exit: a post-dominator. -/
def OnEveryToExit (nodeCount : Nat) (succs : List (List Nat)) (exitNodes : List Nat)
    (v b : Nat) : Prop :=
  ∀ e ∈ exitNodes, Inevitable (FlowEdge nodeCount succs) v e b

/-- What is computed for a block, the synthetic exit aside. -/
theorem postDominators_mem_iff (hgraph : IsFlowGraph nodeCount succs exitNodes)
    {dom : DomSets}
    (hdom : AreDominators (nodeCount + 1) (postPreds nodeCount succs exitNodes) nodeCount dom)
    (hv : v < nodeCount) {b : Nat} (hb : b < nodeCount) :
    b ∈ dom.at v ↔ (BehindExit nodeCount succs exitNodes v →
      OnEveryFromExit nodeCount succs exitNodes v b) := by
  by_cases hbehind : BehindExit nodeCount succs exitNodes v
  · obtain ⟨e, he, rest, hwalk⟩ := id hbehind
    have hreach : Reaches (PredEdge (postPreds nodeCount succs exitNodes)) nodeCount v :=
      ⟨_, (walk_postPreds_iff hgraph hv _).mpr ⟨e, he, rest, rfl, hwalk⟩⟩
    rw [hdom.reachable v (by omega) hreach, imp_iff_right hbehind]
    constructor
    · intro h e he rest hwalk
      have hmem := h _ ((walk_postPreds_iff hgraph hv _).mpr ⟨e, he, rest, rfl, hwalk⟩)
      exact (List.mem_cons.mp hmem).resolve_left (by omega)
    · intro h nodes hwalk
      obtain ⟨e, he, rest, rfl, hrest⟩ := (walk_postPreds_iff hgraph hv _).mp hwalk
      exact List.mem_cons_of_mem _ (h e he rest hrest)
  · have hunreached : ¬ Reaches (PredEdge (postPreds nodeCount succs exitNodes)) nodeCount v := by
      rintro ⟨nodes, hwalk⟩
      obtain ⟨e, he, rest, -, hrest⟩ := (walk_postPreds_iff hgraph hv _).mp hwalk
      exact hbehind ⟨e, he, rest, hrest⟩
    rw [hdom.unreachable v (by omega) hunreached]
    simp only [Finset.mem_range, hbehind, false_imp_iff, iff_true]
    omega

theorem onEveryToExit_lt (hgraph : IsFlowGraph nodeCount succs exitNodes)
    (hv : v < nodeCount) (hexit : ∃ e ∈ exitNodes, Reaches (FlowEdge nodeCount succs) v e)
    {b : Nat} (h : OnEveryToExit nodeCount succs exitNodes v b) : b < nodeCount := by
  obtain ⟨e, he, nodes, hwalk⟩ := hexit
  have hall : ∀ {w nodes}, Walk (FlowEdge nodeCount succs) v w nodes →
      ∀ d ∈ nodes, d < nodeCount := by
    intro w nodes hwalk
    induction hwalk with
    | start =>
      intro d hd
      rw [List.mem_singleton.mp hd]
      exact hv
    | step _ hedge ih =>
      intro d hd
      rcases List.mem_append.mp hd with hd | hd
      · exact ih d hd
      · rw [List.mem_singleton.mp hd]
        exact hgraph.succs _ _ hedge
  exact hall hwalk b (h e he nodes hwalk)

/-- The set computed for a block that leads to an exit holds its post-dominators exactly when
    those are the blocks on every path from an exit to it, or, if no exit leads to it, all
    blocks. -/
theorem post_dominators_iff (hgraph : IsFlowGraph nodeCount succs exitNodes)
    (hv : v < nodeCount) (hexit : ∃ e ∈ exitNodes, Reaches (FlowEdge nodeCount succs) v e) :
    ∃ dom, (∀ fuel > (nodeCount + 1) * (nodeCount + 1),
        postDominators nodeCount succs exitNodes fuel = some dom) ∧
      ((∀ b, b ∈ (dom.at v).erase nodeCount ↔ OnEveryToExit nodeCount succs exitNodes v b) ↔
        ∀ b < nodeCount, (BehindExit nodeCount succs exitNodes v →
          OnEveryFromExit nodeCount succs exitNodes v b) ↔
            OnEveryToExit nodeCount succs exitNodes v b) := by
  have hrange := @inRange_postPreds nodeCount succs exitNodes
  obtain ⟨dom, hsettled, hinv, hstill⟩ := dominators_settles hrange (Nat.lt_succ_self nodeCount)
    (Nat.lt_succ_self ((nodeCount + 1) * (nodeCount + 1)))
  have hdom := hinv.areDominators hrange hstill
  refine ⟨dom, fun fuel hfuel => Sweep.settle_mono hsettled hfuel, ?_⟩
  constructor
  · intro h b hb
    rw [← postDominators_mem_iff hgraph hdom hv hb, ← h b, Finset.mem_erase]
    have hne : b ≠ nodeCount := by omega
    simp [hne]
  · intro h b
    rw [Finset.mem_erase]
    constructor
    · rintro ⟨hne, hmem⟩
      have hb : b < nodeCount + 1 := Finset.mem_range.mp (hinv.within v hmem)
      have hb : b < nodeCount := by omega
      exact (h b hb).mp ((postDominators_mem_iff hgraph hdom hv hb).mp hmem)
    · intro honly
      have hb := onEveryToExit_lt hgraph hv hexit honly
      exact ⟨by omega, (postDominators_mem_iff hgraph hdom hv hb).mpr ((h b hb).mpr honly)⟩

end Preds

/-! ### A block beside the way to the exit -/

/-- 0 → 1, 0 → 2 → 1, and 1 is the exit. -/
def detour : List (List Nat) := [[1, 2], [], [1]]

theorem detour_isFlowGraph : IsFlowGraph 3 detour [1] where
  succs := by
    rintro v w ⟨hv, hw⟩
    obtain rfl | rfl | rfl : v = 0 ∨ v = 1 ∨ v = 2 := by omega
    · simp [detour] at hw
      omega
    · simp [detour] at hw
    · simp [detour] at hw
      omega
  exits := by simp

theorem detour_direct : Walk (FlowEdge 3 detour) 0 1 [0, 1] :=
  Walk.start.step ⟨by decide, by decide⟩

theorem detour_exit : ∃ e ∈ [1], Reaches (FlowEdge 3 detour) 0 e :=
  ⟨1, by simp, _, detour_direct⟩

theorem post_dominators_iff_detour :
    ∃ dom, (∀ fuel > (3 + 1) * (3 + 1), postDominators 3 detour [1] fuel = some dom) ∧
      ((∀ b, b ∈ (dom.at 0).erase 3 ↔ OnEveryToExit 3 detour [1] 0 b) ↔
        ∀ b < 3, (BehindExit 3 detour [1] 0 → OnEveryFromExit 3 detour [1] 0 b) ↔
          OnEveryToExit 3 detour [1] 0 b) :=
  post_dominators_iff detour_isFlowGraph (by decide) detour_exit

/-- Block 2 is among the post-dominators of 0, although 0 leads to the exit directly. -/
theorem detour_post_dominates :
    ¬ ∀ (nodeCount : Nat) (succs : List (List Nat)) (exitNodes : List Nat) (v : Nat),
      IsFlowGraph nodeCount succs exitNodes → v < nodeCount →
      (∃ e ∈ exitNodes, Reaches (FlowEdge nodeCount succs) v e) →
      ∃ dom fuel, postDominators nodeCount succs exitNodes fuel = some dom ∧
        ∀ b, b ∈ (dom.at v).erase nodeCount ↔ OnEveryToExit nodeCount succs exitNodes v b := by
  intro h
  obtain ⟨dom, fuel, hresult, hall⟩ := h 3 detour [1] 0 detour_isFlowGraph (by decide) detour_exit
  have hrun : postDominators 3 detour [1] 3 = some [{0, 1, 2, 3}, {1, 3}, {0, 1, 2, 3}, {3}] := by
    decide +kernel
  have hsame : dom = [{0, 1, 2, 3}, {1, 3}, {0, 1, 2, 3}, {3}] := by
    have hmore := Sweep.settle_mono hresult (Nat.le_max_left fuel 3)
    have hmore' := Sweep.settle_mono hrun (Nat.le_max_right fuel 3)
    exact Option.some.inj (hmore.symm.trans hmore')
  have hmem : 2 ∈ (dom.at 0).erase 3 := by
    rw [hsame]
    decide
  have hdirect := (hall 2).mp hmem 1 (by simp) _ detour_direct
  revert hdirect
  decide

end Canon.Algorithms
