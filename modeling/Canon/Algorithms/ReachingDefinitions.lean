import Mathlib.Data.Finset.Union
import Mathlib.Data.Finset.Card
import Mathlib.Algebra.Order.BigOperators.Group.List
import Mathlib.Algebra.Order.Ring.Nat
import Canon.Lib.Maps

/-! # Reaching definitions

    `reaching_definitions` of `control_flow/dataflow.rs`: the sets of all blocks are brought
    up to date one block after the other, until a pass changes no `out` set.

    * `update`, `pass`, `reachingDefinitions`: the model, over any type of definitions,
    * `Entering`: the paths on which a definition gets into a block,
    * `Inv`: the `out` sets are below the paths and below their own equations,
    * `pass_spec`, `iterate_spec`: what a pass and what the loop does,
    * `reaching_definitions_paths`: the result.
-/

namespace Canon.Algorithms.ReachingDefinitions

open Relation

variable {δ : Type} [DecidableEq δ]

/-! ### Model -/

abbrev BlockId := Nat

structure DataflowFacts (δ : Type) where
  gen : FMap BlockId (Finset δ)
  kill : FMap BlockId (Finset δ)

structure DataflowResult (δ : Type) where
  into : FMap BlockId (Finset δ)
  out : FMap BlockId (Finset δ)

variable (blocks : List BlockId) (pred : FMap BlockId (List BlockId)) (facts : DataflowFacts δ)

def DataflowFacts.genOf (b : BlockId) : Finset δ := (facts.gen b).getD ∅

def DataflowFacts.killOf (b : BlockId) : Finset δ :=
  (facts.kill b).getD ∅

/-- The union of the `out` sets; nothing for a block without one, where the code panics. -/
def unionOut (out : FMap BlockId (Finset δ)) : List BlockId → Option (Finset δ)
  | [] => some ∅
  | p :: ps => do
    let first ← out p
    let rest ← unionOut out ps
    pure (first ∪ rest)

def newIn (out : FMap BlockId (Finset δ)) (pred : FMap BlockId (List BlockId)) (b : BlockId) :
    Option (Finset δ) :=
  match pred b with
  | none => some ∅
  | some ps => unionOut out ps

/-- One block; the flag tells whether a set has changed in this pass. -/
def update (s : DataflowResult δ × Bool) (b : BlockId) : Option (DataflowResult δ × Bool) := do
  let into ← newIn s.1.out pred b
  let newOut := facts.genOf b ∪ (into \ facts.killOf b)
  let old ← s.1.out b
  if newOut ≠ old then pure (⟨s.1.into.insert b into, s.1.out.insert b newOut⟩, true)
  else pure (⟨s.1.into.insert b into, s.1.out⟩, s.2)

def pass (s : DataflowResult δ) : Option (DataflowResult δ × Bool) :=
  blocks.foldlM (update pred facts) (s, false)

/-- Nothing also when the fuel is spent. -/
def iterate (blocks : List BlockId) (pred : FMap BlockId (List BlockId))
    (facts : DataflowFacts δ) : Nat → DataflowResult δ → Option (DataflowResult δ)
  | 0, _ => none
  | fuel + 1, s => do
    let (s, changed) ← pass blocks pred facts s
    if changed then iterate blocks pred facts fuel s else pure s

/-- The sets before the loop. -/
def start : DataflowResult δ :=
  blocks.foldl (fun s b => ⟨s.into.insert b ∅, s.out.insert b (facts.genOf b)⟩)
    ⟨FMap.empty, FMap.empty⟩

/-- All definitions there are. -/
def definitions : Finset δ :=
  blocks.toFinset.biUnion facts.genOf

def reachingDefinitions : Option (DataflowResult δ) :=
  iterate blocks pred facts (blocks.length * (definitions blocks facts).card + 1)
    (start blocks facts)

/-! ### Paths and equations -/

def predBlocks (b : BlockId) : List BlockId :=
  (pred b).getD []

def DataflowResult.intoOf (r : DataflowResult δ) (b : BlockId) : Finset δ := (r.into b).getD ∅

def DataflowResult.outOf (r : DataflowResult δ) (b : BlockId) : Finset δ := (r.out b).getD ∅

/-- An edge into a block that the definition leaves again: the block does not kill it without
    making it anew. -/
def Passes (d : δ) (a b : BlockId) : Prop :=
  a ∈ predBlocks pred b ∧ (d ∈ facts.killOf b → d ∈ facts.genOf b)

/-- Some block makes the definition, and a path of at least one edge leads from there to `b`
    with no block inside that kills it. -/
def Entering (d : δ) (b : BlockId) : Prop :=
  ∃ p q, d ∈ facts.genOf p ∧ ReflTransGen (Passes pred facts d) p q ∧ q ∈ predBlocks pred b

/-- The dataflow equations. -/
def Solves (into out : BlockId → Finset δ) : Prop :=
  ∀ b ∈ blocks, into b = (predBlocks pred b).toFinset.biUnion out ∧
    out b = facts.genOf b ∪ (into b \ facts.killOf b)

/-- The predecessors of the blocks are blocks. -/
def Closed : Prop :=
  ∀ b ∈ blocks, ∀ p ∈ predBlocks pred b, p ∈ blocks

variable {blocks rest : List BlockId} {pred : FMap BlockId (List BlockId)}
  {facts : DataflowFacts δ} {r r' : DataflowResult δ} {b p q : BlockId} {d : δ}

/-- A definition that enters a block and is not killed there, or is made there, leaves it. -/
def Leaving (pred : FMap BlockId (List BlockId)) (facts : DataflowFacts δ) (d : δ)
    (b : BlockId) : Prop :=
  d ∈ facts.genOf b ∨ (Entering pred facts d b ∧ d ∉ facts.killOf b)

omit [DecidableEq δ] in
/-- What leaves a predecessor enters the block. -/
theorem Leaving.entering (h : Leaving pred facts d p) (hp : p ∈ predBlocks pred b) :
    Entering pred facts d b := by
  rcases h with hgen | ⟨⟨a, q, hgen, hpath, hq⟩, hkill⟩
  · exact ⟨p, p, hgen, .refl, hp⟩
  · exact ⟨a, p, hgen, hpath.tail ⟨hq, fun hin => absurd hin hkill⟩, hp⟩

/-- Every solution of the equations contains the definitions that the paths bring. -/
theorem Solves.entering {into out : BlockId → Finset δ} (h : Solves blocks pred facts into out)
    (hclosed : Closed blocks pred) (hb : b ∈ blocks) (hd : Entering pred facts d b) :
    d ∈ into b := by
  obtain ⟨p, q, hgen, hpath, hq⟩ := hd
  have hin : ∀ {q}, q ∈ blocks → ReflTransGen (Passes pred facts d) p q → d ∈ out q := by
    intro q hqb hpath
    induction hpath with
    | refl =>
      rw [(h p hqb).2]
      exact Finset.mem_union_left _ hgen
    | @tail x y _ hstep ih =>
      have hx := ih (hclosed y hqb x hstep.1)
      obtain ⟨hinto, hout⟩ := h y hqb
      rw [hout, Finset.mem_union, Finset.mem_sdiff, hinto, Finset.mem_biUnion]
      by_cases hkill : d ∈ facts.killOf y
      · exact .inl (hstep.2 hkill)
      · exact .inr ⟨⟨x, List.mem_toFinset.mpr hstep.1, hx⟩, hkill⟩
  rw [(h b hb).1, Finset.mem_biUnion]
  exact ⟨q, List.mem_toFinset.mpr hq, hin (hclosed b hb q hq) hpath⟩

/-! ### Single blocks -/

/-- What the equations ask of the `in` set of a block. -/
def inEquation (pred : FMap BlockId (List BlockId)) (r : DataflowResult δ) (b : BlockId) :
    Finset δ :=
  (predBlocks pred b).toFinset.biUnion r.outOf

/-- What the equations ask of the `out` set of a block. -/
def outEquation (pred : FMap BlockId (List BlockId)) (facts : DataflowFacts δ)
    (r : DataflowResult δ) (b : BlockId) : Finset δ :=
  facts.genOf b ∪ (inEquation pred r b \ facts.killOf b)

/-- The `out` sets are there, below the paths and below their equations. -/
structure Inv (blocks : List BlockId) (pred : FMap BlockId (List BlockId))
    (facts : DataflowFacts δ) (r : DataflowResult δ) : Prop where
  defined : ∀ b ∈ blocks, ∃ s, r.out b = some s
  grows : ∀ b ∈ blocks, r.outOf b ⊆ outEquation pred facts r b
  bounded : ∀ b ∈ blocks, r.outOf b ⊆ definitions blocks facts
  sound : ∀ b ∈ blocks, ∀ d ∈ r.outOf b, Leaving pred facts d b

theorem unionOut_eq {ps : List BlockId} (h : ∀ p ∈ ps, ∃ s, r.out p = some s) :
    unionOut r.out ps = some (ps.toFinset.biUnion r.outOf) := by
  induction ps with
  | nil => rfl
  | cons p ps ih =>
    obtain ⟨⟨s, hs⟩, hrest⟩ := List.forall_mem_cons.mp h
    have hp : r.outOf p = s := by rw [DataflowResult.outOf, hs]; rfl
    rw [unionOut, hs, ih hrest, List.toFinset_cons, Finset.biUnion_insert, hp]
    rfl

theorem newIn_eq (h : ∀ p ∈ predBlocks pred b, ∃ s, r.out p = some s) :
    newIn r.out pred b = some (inEquation pred r b) := by
  rw [newIn, inEquation]
  rw [predBlocks] at h ⊢
  cases hpred : pred b with
  | none => rfl
  | some ps =>
    rw [hpred] at h
    exact unionOut_eq h

/-- What one block does: its `in` set is written, and its `out` set when it differs. -/
theorem update_eq (hclosed : Closed blocks pred) (h : Inv blocks pred facts r) (hb : b ∈ blocks)
    (changed : Bool) :
    update pred facts (r, changed) b = some
      (if outEquation pred facts r b = r.outOf b then
        (⟨r.into.insert b (inEquation pred r b), r.out⟩, changed)
      else (⟨r.into.insert b (inEquation pred r b),
        r.out.insert b (outEquation pred facts r b)⟩, true)) := by
  obtain ⟨old, hold⟩ := h.defined b hb
  have holdOf : r.outOf b = old := by rw [DataflowResult.outOf, hold]; rfl
  rw [update, newIn_eq fun p hp => h.defined p (hclosed b hb p hp), hold, holdOf]
  show (if facts.genOf b ∪ (inEquation pred r b \ facts.killOf b) ≠ old then _ else _) = _
  rw [outEquation, ite_not]
  split
  · rfl
  · rfl

theorem outEquation_mono (h : ∀ p ∈ predBlocks pred b, r.outOf p ⊆ r'.outOf p) :
    outEquation pred facts r b ⊆ outEquation pred facts r' b := by
  apply Finset.union_subset_union_right
  apply Finset.sdiff_subset_sdiff _ (Finset.Subset.refl _)
  intro d hd
  obtain ⟨p, hp, hdp⟩ := Finset.mem_biUnion.mp hd
  exact Finset.mem_biUnion.mpr ⟨p, hp, h p (List.mem_toFinset.mp hp) hdp⟩

theorem inEquation_entering (hclosed : Closed blocks pred) (h : Inv blocks pred facts r)
    (hb : b ∈ blocks) (hd : d ∈ inEquation pred r b) : Entering pred facts d b := by
  obtain ⟨p, hp, hdp⟩ := Finset.mem_biUnion.mp hd
  have hp := List.mem_toFinset.mp hp
  exact (h.sound p (hclosed b hb p hp) d hdp).entering hp

theorem outEquation_bounded (hclosed : Closed blocks pred) (h : Inv blocks pred facts r)
    (hb : b ∈ blocks) : outEquation pred facts r b ⊆ definitions blocks facts := by
  intro d hd
  rcases Finset.mem_union.mp hd with hgen | hin
  · exact Finset.mem_biUnion.mpr ⟨b, List.mem_toFinset.mpr hb, hgen⟩
  · obtain ⟨p, hp, hdp⟩ := Finset.mem_biUnion.mp (Finset.mem_sdiff.mp hin).1
    exact h.bounded p (hclosed b hb p (List.mem_toFinset.mp hp)) hdp

/-- Writing what the equation asks keeps the invariant. -/
theorem Inv.insert (hclosed : Closed blocks pred) (h : Inv blocks pred facts r) (hb : b ∈ blocks)
    (into : FMap BlockId (Finset δ)) :
    Inv blocks pred facts ⟨into, r.out.insert b (outEquation pred facts r b)⟩ := by
  have hself : DataflowResult.outOf ⟨into, r.out.insert b (outEquation pred facts r b)⟩ b =
      outEquation pred facts r b := by
    show (r.out.insert b (outEquation pred facts r b) b).getD ∅ = _
    rw [FMap.insert_self, Option.getD_some]
  have hother : ∀ c, c ≠ b →
      DataflowResult.outOf ⟨into, r.out.insert b (outEquation pred facts r b)⟩ c = r.outOf c := by
    intro c hc
    show (r.out.insert b (outEquation pred facts r b) c).getD ∅ = (r.out c).getD ∅
    rw [FMap.insert_of_ne _ _ hc]
  have hgrown : ∀ c ∈ blocks, r.outOf c ⊆
      DataflowResult.outOf ⟨into, r.out.insert b (outEquation pred facts r b)⟩ c := by
    intro c hc
    by_cases hcb : c = b
    · rw [hcb, hself]
      exact h.grows b hb
    · rw [hother c hcb]
  refine ⟨?_, ?_, ?_, ?_⟩
  · intro c hc
    by_cases hcb : c = b
    · exact ⟨_, by rw [hcb]; exact FMap.insert_self ..⟩
    · obtain ⟨s, hs⟩ := h.defined c hc
      exact ⟨s, (FMap.insert_of_ne _ _ hcb).trans hs⟩
  · intro c hc
    have hmono := @outEquation_mono δ _ pred facts r
      ⟨into, r.out.insert b (outEquation pred facts r b)⟩ c
      fun p hp => hgrown p (hclosed c hc p hp)
    by_cases hcb : c = b
    · rw [hcb] at hmono ⊢
      rw [hself]
      exact hmono
    · rw [hother c hcb]
      exact (h.grows c hc).trans hmono
  · intro c hc
    by_cases hcb : c = b
    · rw [hcb, hself]
      exact outEquation_bounded hclosed h hb
    · rw [hother c hcb]
      exact h.bounded c hc
  · intro c hc d hd
    by_cases hcb : c = b
    · rw [hcb, hself] at hd
      rw [hcb]
      rcases Finset.mem_union.mp hd with hgen | hin
      · exact .inl hgen
      · obtain ⟨hin, hkill⟩ := Finset.mem_sdiff.mp hin
        exact .inr ⟨inEquation_entering hclosed h hb hin, hkill⟩
    · rw [hother c hcb] at hd
      exact h.sound c hc d hd

omit [DecidableEq δ] in
theorem Inv.of_out [DecidableEq δ] {into : FMap BlockId (Finset δ)}
    (h : Inv blocks pred facts r) : Inv blocks pred facts ⟨into, r.out⟩ :=
  ⟨h.defined, h.grows, h.bounded, h.sound⟩

/-! ### Passes -/

/-- How many definitions the `out` sets do not have yet. -/
def room (blocks : List BlockId) (facts : DataflowFacts δ) (r : DataflowResult δ) : Nat :=
  (blocks.map fun b => (definitions blocks facts).card - (r.outOf b).card).sum

/-- A set that is written because it differs has grown. -/
theorem room_insert_lt (hclosed : Closed blocks pred) (h : Inv blocks pred facts r)
    (hb : b ∈ blocks) (hne : outEquation pred facts r b ≠ r.outOf b)
    (into : FMap BlockId (Finset δ)) :
    room blocks facts ⟨into, r.out.insert b (outEquation pred facts r b)⟩ <
      room blocks facts r := by
  have hcard : (r.outOf b).card < (outEquation pred facts r b).card :=
    Finset.card_lt_card ((h.grows b hb).ssubset_of_ne (Ne.symm hne))
  have hbound := Finset.card_le_card (outEquation_bounded hclosed h hb)
  have hself : DataflowResult.outOf ⟨into, r.out.insert b (outEquation pred facts r b)⟩ b =
      outEquation pred facts r b := by
    show (r.out.insert b (outEquation pred facts r b) b).getD ∅ = _
    rw [FMap.insert_self, Option.getD_some]
  apply List.sum_lt_sum
  · intro c hc
    by_cases hcb : c = b
    · rw [hcb, hself]
      omega
    · apply Nat.le_of_eq
      show _ - ((r.out.insert b (outEquation pred facts r b) c).getD ∅).card = _
      rw [FMap.insert_of_ne _ _ hcb]
      rfl
  · refine ⟨b, hb, ?_⟩
    rw [hself]
    omega

/-- What a pass over `rest` has done when it ends. -/
structure Passed (blocks rest : List BlockId) (pred : FMap BlockId (List BlockId))
    (facts : DataflowFacts δ) (r : DataflowResult δ) (changed : Bool) (r' : DataflowResult δ)
    (changed' : Bool) : Prop where
  inv : Inv blocks pred facts r'
  room_le : room blocks facts r' ≤ room blocks facts r
  changes : changed' = true → changed = true ∨ room blocks facts r' < room blocks facts r
  same : changed' = false → changed = false ∧ r'.out = r.out ∧
    ∀ b, (b ∈ rest → outEquation pred facts r b = r.outOf b) ∧
      (b ∈ rest ∨ r.into b = some (inEquation pred r b) →
        r'.into b = some (inEquation pred r b))

theorem pass_spec (hclosed : Closed blocks pred) (rest : List BlockId)
    (hrest : ∀ b ∈ rest, b ∈ blocks) :
    ∀ (r : DataflowResult δ) (changed : Bool), Inv blocks pred facts r →
      ∃ r' changed', rest.foldlM (update pred facts) (r, changed) = some (r', changed') ∧
        Passed blocks rest pred facts r changed r' changed' := by
  induction rest with
  | nil =>
    intro r changed h
    refine ⟨r, changed, rfl, h, le_rfl, .inl, ?_⟩
    intro hchanged
    refine ⟨hchanged, rfl, ?_⟩
    intro b
    refine ⟨fun hb => absurd hb List.not_mem_nil, ?_⟩
    intro hor
    exact hor.resolve_left List.not_mem_nil
  | cons c rest ih =>
    intro r changed h
    obtain ⟨hc, hrest⟩ := List.forall_mem_cons.mp hrest
    rw [List.foldlM_cons, update_eq hclosed h hc]
    by_cases heq : outEquation pred facts r c = r.outOf c
    · rw [if_pos heq]
      obtain ⟨r', changed', hrun, hpassed⟩ :=
        ih hrest ⟨r.into.insert c (inEquation pred r c), r.out⟩ changed h.of_out
      refine ⟨r', changed', hrun, hpassed.inv, hpassed.room_le, hpassed.changes, ?_⟩
      intro hfalse
      obtain ⟨hchanged, hout, hall⟩ := hpassed.same hfalse
      refine ⟨hchanged, hout, ?_⟩
      intro b
      obtain ⟨hequation, hinto⟩ := hall b
      constructor
      · intro hb
        rcases List.mem_cons.mp hb with rfl | hb
        · exact heq
        · exact hequation hb
      · intro hor
        apply hinto
        by_cases hbc : b = c
        · right
          rw [hbc]
          exact FMap.insert_self ..
        · rcases hor with hb | hb
          · exact .inl ((List.mem_cons.mp hb).resolve_left hbc)
          · exact .inr ((FMap.insert_of_ne _ _ hbc).trans hb)
    · rw [if_neg heq]
      have hlt := room_insert_lt hclosed h hc heq (r.into.insert c (inEquation pred r c))
      obtain ⟨r', changed', hrun, hpassed⟩ := ih hrest _ true
        (h.insert hclosed hc (r.into.insert c (inEquation pred r c)))
      have hle := hpassed.room_le
      refine ⟨r', changed', hrun, hpassed.inv, by omega, fun _ => .inr (by omega), ?_⟩
      intro hfalse
      exact absurd (hpassed.same hfalse).1 (by decide)

/-! ### The loop -/

/-- Where a pass changes nothing, its `in` sets are those of its `out` sets, and the equations
    hold. -/
theorem iterate_spec (hclosed : Closed blocks pred) (fuel : Nat) :
    ∀ r : DataflowResult δ, Inv blocks pred facts r → room blocks facts r < fuel →
      ∃ r', iterate blocks pred facts fuel r = some r' ∧ Inv blocks pred facts r' ∧
        Solves blocks pred facts r'.intoOf r'.outOf := by
  induction fuel with
  | zero =>
    intro r _ hfuel
    omega
  | succ fuel ih =>
    intro r h hfuel
    obtain ⟨r', changed, hrun, hpassed⟩ := pass_spec hclosed blocks (fun _ hb => hb) r false h
    rw [iterate, pass, hrun]
    cases changed with
    | true =>
      have hlt := (hpassed.changes rfl).resolve_left (by decide)
      exact ih r' hpassed.inv (by omega)
    | false =>
      obtain ⟨-, hout, hall⟩ := hpassed.same rfl
      refine ⟨r', rfl, hpassed.inv, ?_⟩
      intro b hb
      obtain ⟨hequation, hinto⟩ := hall b
      have hsame : r'.outOf = r.outOf := by
        funext c
        rw [DataflowResult.outOf, hout, DataflowResult.outOf]
      have hinto : r'.intoOf b = inEquation pred r b := by
        rw [DataflowResult.intoOf, hinto (.inl hb), Option.getD_some]
      rw [hsame, hinto, ← hequation hb]
      exact ⟨rfl, rfl⟩

omit [DecidableEq δ] in
theorem start_defined (blocks : List BlockId) (facts : DataflowFacts δ) :
    ∀ b ∈ blocks, (start blocks facts).out b = some (facts.genOf b) := by
  have hrun : ∀ (rest : List BlockId) (r : DataflowResult δ) (b : BlockId),
      b ∈ rest ∨ r.out b = some (facts.genOf b) →
        (rest.foldl (fun s b => ⟨s.into.insert b ∅, s.out.insert b (facts.genOf b)⟩) r).out b =
          some (facts.genOf b) := by
    intro rest
    induction rest with
    | nil =>
      intro r b hor
      exact hor.resolve_left List.not_mem_nil
    | cons c rest ih =>
      intro r b hor
      apply ih
      by_cases hbc : b = c
      · right
        rw [hbc]
        exact FMap.insert_self ..
      · rcases hor with hb | hb
        · exact .inl ((List.mem_cons.mp hb).resolve_left hbc)
        · exact .inr ((FMap.insert_of_ne _ _ hbc).trans hb)
  intro b hb
  exact hrun blocks _ b (.inl hb)

theorem start_inv (blocks : List BlockId) (pred : FMap BlockId (List BlockId))
    (facts : DataflowFacts δ) : Inv blocks pred facts (start blocks facts) := by
  have hout : ∀ b ∈ blocks, (start blocks facts).outOf b = facts.genOf b := by
    intro b hb
    rw [DataflowResult.outOf, start_defined blocks facts b hb, Option.getD_some]
  refine ⟨fun b hb => ⟨_, start_defined blocks facts b hb⟩, ?_, ?_, ?_⟩
  · intro b hb
    rw [hout b hb]
    exact Finset.subset_union_left
  · intro b hb
    rw [hout b hb]
    exact Finset.subset_biUnion_of_mem facts.genOf (List.mem_toFinset.mpr hb)
  · intro b hb d hd
    rw [hout b hb] at hd
    exact .inl hd

theorem room_le (blocks : List BlockId) (facts : DataflowFacts δ) (r : DataflowResult δ) :
    room blocks facts r ≤ blocks.length * (definitions blocks facts).card := by
  have hsum := List.sum_le_card_nsmul
    (blocks.map fun b => (definitions blocks facts).card - (r.outOf b).card)
    (definitions blocks facts).card ?_
  · rw [List.length_map] at hsum
    exact hsum
  · intro k hk
    obtain ⟨b, -, rfl⟩ := List.mem_map.mp hk
    exact Nat.sub_le ..

/-- A call ends with sets that solve the equations and contain exactly what the paths bring. -/
theorem reachingDefinitions_spec (hclosed : Closed blocks pred) (facts : DataflowFacts δ) :
    ∃ r, reachingDefinitions blocks pred facts = some r ∧
      Solves blocks pred facts r.intoOf r.outOf ∧
      ∀ b ∈ blocks, ∀ d, d ∈ r.intoOf b ↔ Entering pred facts d b := by
  obtain ⟨r, hrun, hinv, hsolves⟩ := iterate_spec hclosed _ (start blocks facts)
    (start_inv blocks pred facts) (Nat.lt_succ_of_le (room_le blocks facts _))
  refine ⟨r, hrun, hsolves, ?_⟩
  intro b hb d
  constructor
  · intro hd
    rw [(hsolves b hb).1] at hd
    exact inEquation_entering hclosed hinv hb hd
  · exact hsolves.entering hclosed hb

/-- For every list of blocks, every map of predecessors among them and all facts the call
    returns the least solution of the equations, and a definition gets into a block exactly
    on a path from a block that makes it. -/
theorem reaching_definitions_paths (blocks : List BlockId) (pred : FMap BlockId (List BlockId))
    (facts : DataflowFacts δ) (hclosed : Closed blocks pred) :
    ∃ r, reachingDefinitions blocks pred facts = some r ∧
      Solves blocks pred facts r.intoOf r.outOf ∧
      (∀ into out, Solves blocks pred facts into out →
        ∀ b ∈ blocks, r.intoOf b ⊆ into b ∧ r.outOf b ⊆ out b) ∧
      ∀ b ∈ blocks, ∀ d, d ∈ r.intoOf b ↔ Entering pred facts d b := by
  obtain ⟨r, hrun, hsolves, hpaths⟩ := reachingDefinitions_spec hclosed facts
  refine ⟨r, hrun, hsolves, ?_, hpaths⟩
  intro into out hother b hb
  have hinto : r.intoOf b ⊆ into b := by
    intro d hd
    exact hother.entering hclosed hb ((hpaths b hb d).mp hd)
  refine ⟨hinto, ?_⟩
  rw [(hsolves b hb).2, (hother b hb).2]
  exact Finset.union_subset_union_right (Finset.sdiff_subset_sdiff hinto (Finset.Subset.refl _))

/-- Two blocks in a loop; the second kills what the first makes. -/
def loopPred : FMap BlockId (List BlockId) := (FMap.empty.insert 0 [1]).insert 1 [0]

def loopFacts : DataflowFacts Nat := ⟨FMap.empty.insert 0 {7}, FMap.empty.insert 1 {7}⟩

theorem reaching_definitions_paths_loop :
    ∃ r, reachingDefinitions [0, 1] loopPred loopFacts = some r ∧
      Solves [0, 1] loopPred loopFacts r.intoOf r.outOf ∧
      (∀ into out, Solves [0, 1] loopPred loopFacts into out →
        ∀ b ∈ [0, 1], r.intoOf b ⊆ into b ∧ r.outOf b ⊆ out b) ∧
      ∀ b ∈ [0, 1], ∀ d, d ∈ r.intoOf b ↔ Entering loopPred loopFacts d b := by
  apply reaching_definitions_paths [0, 1] loopPred loopFacts
  intro b hb p hp
  rcases List.mem_cons.mp hb with rfl | hb
  · have hp1 : p = 1 := List.mem_singleton.mp hp
    rw [hp1]
    decide
  · rw [List.mem_singleton.mp hb] at hp
    have hp0 : p = 0 := List.mem_singleton.mp hp
    rw [hp0]
    decide

end Canon.Algorithms.ReachingDefinitions
