import Mathlib.Data.Set.Card
import Canon.Lib.Forest

/-! # Union-find

    `data_structures/union_find.rs`: `find` follows the parents to the root and then points
    everything on the way at it; `union` points the root of the lower rank at the other.

    * `rootLoop`, `compressLoop`, `find`, `union`, `labels`: the functions of the source,
    * `Partition`: the forest represents the classes that the unions made,
    * `find_spec`, `union_spec`, `labelsLoop_spec`: what each operation does,
    * `run_spec`: every sequence of operations.
-/

namespace Canon.Algorithms.DisjointSets

open Canon.Lib.Forest

variable {pairs : List (Nat × Nat)} (uf : UnionFind)

/-! ### Model -/

structure UnionFind where
  parent : List Nat
  rank : List Nat
  components : Nat
deriving DecidableEq, Repr

def new (size : Nat) : UnionFind := ⟨List.range size, List.replicate size 0, size⟩

/-- Nothing for an index out of bounds, and when the fuel is spent. -/
def rootLoop (parent : List Nat) : Nat → Nat → Option Nat
  | 0, _ => none
  | fuel + 1, root => do
    let next ← parent[root]?
    if next ≠ root then rootLoop parent fuel next else pure root

def compressLoop (root : Nat) : Nat → Nat → List Nat → Option (List Nat)
  | 0, _, _ => none
  | fuel + 1, cur, parent => do
    let next ← parent[cur]?
    if next ≠ cur then compressLoop root fuel next (parent.set cur root) else pure parent

def find (x : Nat) : Option (Nat × UnionFind) := do
  let root ← rootLoop uf.parent (uf.parent.length + 1) x
  let parent ← compressLoop root (uf.parent.length + 1) x uf.parent
  pure (root, { uf with parent })

/-- The addition of the `u8` ranks, which stays at the largest one. -/
def saturatingSucc (rank : Nat) : Nat := min (rank + 1) 255

/-- The root `rb` gets the parent `ra`. -/
def link (ra rb : Nat) : Option UnionFind := do
  let rankA ← uf.rank[ra]?
  let rankB ← uf.rank[rb]?
  pure {
    parent := uf.parent.set rb ra
    rank := if rankA = rankB then uf.rank.set ra (saturatingSucc rankA) else uf.rank
    components := uf.components - 1 }

def union (a b : Nat) : Option (Bool × UnionFind) := do
  let (ra, uf) ← find uf a
  let (rb, uf) ← find uf b
  if ra = rb then pure (false, uf)
  else do
    let rankA ← uf.rank[ra]?
    let rankB ← uf.rank[rb]?
    let uf ← if rankA < rankB then link uf rb ra else link uf ra rb
    pure (true, uf)

def labelsLoop : List Nat → UnionFind → Option (List Nat × UnionFind)
  | [], uf => some ([], uf)
  | i :: rest, uf => do
    let (root, uf) ← find uf i
    let (roots, uf) ← labelsLoop rest uf
    pure (root :: roots, uf)

def labels : Option (List Nat × UnionFind) :=
  labelsLoop (List.range uf.parent.length) uf

inductive Op where
  | union (a b : Nat)
  | find (x : Nat)
deriving DecidableEq, Repr

def step : Op → Option UnionFind
  | .union a b => (union uf a b).map Prod.snd
  | .find x => (find uf x).map Prod.snd

def run : UnionFind → List Op → Option UnionFind
  | uf, [] => some uf
  | uf, op :: ops => do
    let uf ← step uf op
    run uf ops

/-! ### The classes -/

/-- The pairs that are united. -/
def unions : List Op → List (Nat × Nat)
  | [] => []
  | .union a b :: ops => (a, b) :: unions ops
  | .find _ :: ops => unions ops

/-- The least equivalence that relates the pairs. -/
def Related (pairs : List (Nat × Nat)) : Nat → Nat → Prop :=
  Relation.EqvGen fun a b => (a, b) ∈ pairs

def classOf (pairs : List (Nat × Nat)) (a : Nat) : Set Nat := {b | Related pairs a b}

/-- The classes of the elements below `n`. -/
def classes (n : Nat) (pairs : List (Nat × Nat)) : Set (Set Nat) :=
  classOf pairs '' Set.Iio n

def Op.InRange (n : Nat) : Op → Prop
  | .union a b => a < n ∧ b < n
  | .find x => x < n

theorem Related.mono {pairs more : List (Nat × Nat)} {a b : Nat} (hsub : pairs ⊆ more)
    (h : Related pairs a b) : Related more a b :=
  Relation.EqvGen.mono (fun _ _ hmem => hsub hmem) a b h

theorem Related.symm {a b : Nat} (h : Related pairs a b) :
    Related pairs b a := Relation.EqvGen.symm _ _ h

theorem Related.trans {a b c : Nat} (h : Related pairs a b) (h' : Related pairs b c) :
    Related pairs a c := Relation.EqvGen.trans _ _ _ h h'

theorem classOf_eq {a b : Nat} (h : Related pairs a b) :
    classOf pairs a = classOf pairs b := by
  ext c
  exact ⟨fun hc => h.symm.trans hc, fun hc => h.trans hc⟩

theorem related_of_classOf_eq {a b : Nat} (h : classOf pairs a = classOf pairs b) :
    Related pairs a b := by
  have hmem : b ∈ classOf pairs b := Relation.EqvGen.refl b
  rw [← h] at hmem
  exact hmem

/-! ### The forest -/

/-- An element that does not exist counts as its own root. -/
def parentOf (parent : List Nat) (x : Nat) : Nat := parent.getD x x

def roots (parent : List Nat) : Finset Nat :=
  (Finset.range parent.length).filter fun r => parentOf parent r = r

/-- The parents are elements, and following them ends. -/
structure WellFormed (parent : List Nat) : Prop where
  range : ∀ x < parent.length, parentOf parent x < parent.length
  acyclic : Acyclic (parentOf parent)

/-- The forest represents the classes of the pairs. -/
structure Partition (n : Nat) (pairs : List (Nat × Nat)) (uf : UnionFind) : Prop where
  length : uf.parent.length = n
  rank : uf.rank.length = n
  forest : WellFormed uf.parent
  sound : ∀ x r, RootOf (parentOf uf.parent) x r → Related pairs x r
  complete : ∀ a b, (a, b) ∈ pairs →
    ∃ r, RootOf (parentOf uf.parent) a r ∧ RootOf (parentOf uf.parent) b r
  components : uf.components = (roots uf.parent).card

section Forest

variable {parent : List Nat} {x r c a k : Nat}

theorem parentOf_eq (hx : x < parent.length) : parent[x]? = some (parentOf parent x) := by
  rw [parentOf, List.getD_eq_getElem?_getD, List.getElem?_eq_getElem hx]
  rfl

theorem parentOf_set (hc : c < parent.length) :
    parentOf (parent.set c a) = Function.update (parentOf parent) c a := by
  funext x
  show (parent.set c a).getD x x = _
  rw [List.getD_eq_getElem?_getD]
  by_cases hx : x = c
  · rw [hx, List.getElem?_set_self hc, Function.update_self]
    rfl
  · rw [List.getElem?_set_ne (Ne.symm hx), Function.update_of_ne hx, parentOf,
      List.getD_eq_getElem?_getD]

theorem WellFormed.climbs (h : WellFormed parent) (hx : x < parent.length)
    (hr : RootOf (parentOf parent) x r) :
    r < parent.length ∧ Climbs (parentOf parent) parent.length x r := by
  have hclimbs := hr.climbs_card (Finset.mem_range.mpr hx) (fun y hy =>
    Finset.mem_range.mpr (h.range y (Finset.mem_range.mp hy)))
  rw [Finset.card_range] at hclimbs
  refine ⟨?_, hclimbs.mono (Nat.sub_le ..)⟩
  rw [← hclimbs.1]
  have hinside : ∀ m, (parentOf parent)^[m] x < parent.length := by
    intro m
    induction m with
    | zero => exact hx
    | succ m ih =>
      rw [Function.iterate_succ_apply']
      exact h.range _ ih
  exact hinside _

theorem WellFormed.set (h : WellFormed parent) (hc : c < parent.length)
    (ha : a < parent.length) (hroots : ∀ x r, RootOf (parentOf parent) x r →
      ∃ s, RootOf (Function.update (parentOf parent) c a) x s) :
    WellFormed (parent.set c a) := by
  constructor
  · intro x hx
    rw [List.length_set] at hx ⊢
    rw [parentOf_set hc]
    by_cases hxc : x = c
    · rw [hxc, Function.update_self]
      exact ha
    · rw [Function.update_of_ne hxc]
      exact h.range x hx
  · intro x
    rw [parentOf_set hc]
    obtain ⟨r, hr⟩ := h.acyclic x
    exact hroots x r hr

theorem rootLoop_spec (h : WellFormed parent) :
    ∀ {x : Nat}, x < parent.length → Climbs (parentOf parent) k x r →
      rootLoop parent (k + 1) x = some r := by
  induction k with
  | zero =>
    intro x hx hclimbs
    have hxr : x = r := hclimbs.1
    rw [rootLoop, parentOf_eq hx, hxr, hclimbs.2, Option.bind_eq_bind, Option.bind_some,
      if_neg (not_not_intro rfl)]
    rfl
  | succ k ih =>
    intro x hx hclimbs
    rw [rootLoop, parentOf_eq hx, Option.bind_eq_bind, Option.bind_some]
    by_cases hroot : parentOf parent x = x
    · have hxr : x = r := (rootOf_self hroot).unique ⟨_, hclimbs⟩
      rw [if_neg (not_not_intro hroot), hxr]
      rfl
    · rw [if_pos hroot]
      exact ih (h.range x hx) hclimbs.step

/-- The second loop of `find` changes no root. -/
theorem compressLoop_spec :
    ∀ {parent : List Nat} {x : Nat}, WellFormed parent → x < parent.length →
      Climbs (parentOf parent) k x r →
      ∃ parent', compressLoop r (k + 1) x parent = some parent' ∧
        parent'.length = parent.length ∧ WellFormed parent' ∧
        (∀ y s, RootOf (parentOf parent) y s → RootOf (parentOf parent') y s) ∧
        roots parent' = roots parent := by
  induction k with
  | zero =>
    intro parent x h hx hclimbs
    have hxr : x = r := hclimbs.1
    refine ⟨parent, ?_, rfl, h, fun _ _ hr => hr, rfl⟩
    rw [compressLoop, parentOf_eq hx, hxr, hclimbs.2, Option.bind_eq_bind, Option.bind_some,
      if_neg (not_not_intro rfl)]
    rfl
  | succ k ih =>
    intro parent x h hx hclimbs
    rw [compressLoop, parentOf_eq hx, Option.bind_eq_bind, Option.bind_some]
    by_cases hroot : parentOf parent x = x
    · refine ⟨parent, ?_, rfl, h, fun _ _ hr => hr, rfl⟩
      rw [if_neg (not_not_intro hroot)]
      rfl
    · rw [if_pos hroot]
      have hr : RootOf (parentOf parent) x r := ⟨_, hclimbs⟩
      obtain ⟨hrlt, -⟩ := h.climbs hx hr
      have hkept : ∀ y s, RootOf (parentOf parent) y s →
          RootOf (parentOf (parent.set x r)) y s := by
        intro y s ⟨m, hm⟩
        rw [parentOf_set hx]
        exact ⟨m, hm.compress hr hroot⟩
      have hset : WellFormed (parent.set x r) := by
        apply h.set hx hrlt
        intro y s hs
        rw [← parentOf_set hx]
        exact ⟨s, hkept y s hs⟩
      have hnext : Climbs (parentOf (parent.set x r)) k (parentOf parent x) r := by
        rw [parentOf_set hx]
        exact hclimbs.step.compress hr hroot
      obtain ⟨parent', hrun, hlength, hform, hroots, hsame⟩ := ih hset
        (by rw [List.length_set]; exact h.range x hx) hnext
      rw [List.length_set] at hlength
      refine ⟨parent', hrun, hlength, hform, fun y s hs => hroots y s (hkept y s hs), ?_⟩
      rw [hsame]
      ext y
      unfold roots
      rw [Finset.mem_filter, Finset.mem_filter, List.length_set, parentOf_set hx]
      by_cases hyx : y = x
      -- The element was no root, and its new parent is another element.
      · rw [hyx, Function.update_self]
        have hne : r ≠ x := fun heq => hroot (heq ▸ hclimbs.2)
        simp only [hroot, hne, and_false]
      · rw [Function.update_of_ne hyx]

end Forest

/-! ### The operations -/

section Operations

variable {n : Nat} {pairs : List (Nat × Nat)} {uf : UnionFind} {x a b r ra rb : Nat}

theorem Partition.root_iff (h : Partition n pairs uf) {s : Nat}
    (hr : RootOf (parentOf uf.parent) a r) (hs : RootOf (parentOf uf.parent) b s) :
    r = s ↔ Related pairs a b := by
  constructor
  · intro heq
    have hb := h.sound b s hs
    rw [← heq] at hb
    exact (h.sound a r hr).trans hb.symm
  · intro hrel
    -- Having one root is an equivalence that relates the pairs.
    induction hrel generalizing r s with
    | rel a b hmem =>
      obtain ⟨t, ha, hb⟩ := h.complete a b hmem
      exact (hr.unique ha).trans (hb.unique hs)
    | refl a => exact hr.unique hs
    | symm a b _ ih => exact (ih hs hr).symm
    | trans a b c _ _ ihab ihbc =>
      obtain ⟨t, ht⟩ := h.forest.acyclic b
      exact (ihab hr ht).trans (ihbc ht hs)

theorem Partition.exists_rank (h : Partition n pairs uf) (hx : x < n) :
    ∃ v, uf.rank[x]? = some v :=
  ⟨_, List.getElem?_eq_getElem (show x < uf.rank.length by rw [h.rank]; exact hx)⟩

theorem find_spec (h : Partition n pairs uf) (hx : x < n) :
    ∃ r uf', find uf x = some (r, uf') ∧ r < n ∧ RootOf (parentOf uf.parent) x r ∧
      Partition n pairs uf' ∧
      (∀ y s, RootOf (parentOf uf.parent) y s → RootOf (parentOf uf'.parent) y s) := by
  rw [← h.length] at hx
  obtain ⟨r, hr⟩ := h.forest.acyclic x
  obtain ⟨hlt, hclimbs⟩ := h.forest.climbs hx hr
  obtain ⟨parent', hrun, hlength, hform, hkept, hsame⟩ := compressLoop_spec h.forest hx hclimbs
  refine ⟨r, { uf with parent := parent' }, ?_, ?_, hr, ?_, hkept⟩
  · rw [find, rootLoop_spec h.forest hx hclimbs, Option.bind_eq_bind, Option.bind_some, hrun]
    rfl
  · rw [← h.length]
    exact hlt
  · refine ⟨hlength.trans h.length, h.rank, hform, ?_, ?_, ?_⟩
    · intro y s hs
      obtain ⟨t, ht⟩ := h.forest.acyclic y
      rw [hs.unique (hkept y t ht)]
      exact h.sound y t ht
    · intro a b hmem
      obtain ⟨t, ha, hb⟩ := h.complete a b hmem
      exact ⟨t, hkept a t ha, hkept b t hb⟩
    · rw [hsame]
      exact h.components

theorem roots_link {parent : List Nat} (hb : rb < parent.length) (hne : ra ≠ rb) :
    roots (parent.set rb ra) = (roots parent).erase rb := by
  ext y
  unfold roots
  rw [Finset.mem_erase, Finset.mem_filter, Finset.mem_filter, List.length_set, parentOf_set hb]
  by_cases hyb : y = rb
  · rw [hyb, Function.update_self]
    simp [hne]
  · rw [Function.update_of_ne hyb]
    simp [hyb]

/-- Two roots are joined. -/
theorem link_spec (h : Partition n pairs uf) (ha : ra < n) (hb : rb < n)
    (hra : parentOf uf.parent ra = ra) (hrb : parentOf uf.parent rb = rb) (hne : ra ≠ rb)
    {more : List (Nat × Nat)} (hsub : pairs ⊆ more) (hrel : Related more rb ra)
    (hmore : ∀ a b, (a, b) ∈ more → (a, b) ∈ pairs ∨
      ∃ r s, RootOf (parentOf uf.parent) a r ∧ RootOf (parentOf uf.parent) b s ∧
        (r = ra ∨ r = rb) ∧ (s = ra ∨ s = rb)) :
    ∃ uf', link uf ra rb = some uf' ∧ Partition n more uf' := by
  have hlt : rb < uf.parent.length := by
    rw [h.length]
    exact hb
  have hmoved : ∀ y s, RootOf (parentOf uf.parent) y s →
      RootOf (parentOf (uf.parent.set rb ra)) y (if s = rb then ra else s) := by
    intro y s ⟨m, hm⟩
    rw [parentOf_set hlt]
    exact ⟨m + 1, hm.link hra hrb hne⟩
  have hform : WellFormed (uf.parent.set rb ra) := by
    apply h.forest.set hlt (by rw [h.length]; exact ha)
    intro y s hs
    rw [← parentOf_set hlt]
    exact ⟨_, hmoved y s hs⟩
  obtain ⟨rankA, hrankA⟩ := h.exists_rank ha
  obtain ⟨rankB, hrankB⟩ := h.exists_rank hb
  refine ⟨{ parent := uf.parent.set rb ra,
            rank := if rankA = rankB then uf.rank.set ra (saturatingSucc rankA) else uf.rank,
            components := uf.components - 1 }, ?_, ?_⟩
  · rw [link, hrankA, hrankB]
    rfl
  · refine ⟨?_, ?_, hform, ?_, ?_, ?_⟩
    · rw [List.length_set]
      exact h.length
    · show (ite _ _ _ : List Nat).length = n
      split
      · rw [List.length_set]
        exact h.rank
      · exact h.rank
    · intro y s hs
      obtain ⟨t, ht⟩ := h.forest.acyclic y
      rw [hs.unique (hmoved y t ht)]
      have hold := (h.sound y t ht).mono hsub
      by_cases htb : t = rb
      · rw [if_pos htb]
        rw [htb] at hold
        exact hold.trans hrel
      · rw [if_neg htb]
        exact hold
    · intro a b hmem
      rcases hmore a b hmem with hold | ⟨r, s, har, hbs, hr, hs⟩
      · obtain ⟨t, ha, hb⟩ := h.complete a b hold
        exact ⟨_, hmoved a t ha, hmoved b t hb⟩
      · have hjoined : ∀ t, t = ra ∨ t = rb → (if t = rb then ra else t) = ra := by
          intro t ht
          rcases ht with rfl | rfl
          · rw [if_neg hne]
          · rw [if_pos rfl]
        have ha := hmoved a r har
        have hb := hmoved b s hbs
        rw [hjoined r hr] at ha
        rw [hjoined s hs] at hb
        exact ⟨ra, ha, hb⟩
    · show uf.components - 1 = _
      have hmem : rb ∈ roots uf.parent :=
        Finset.mem_filter.mpr ⟨Finset.mem_range.mpr hlt, hrb⟩
      rw [roots_link hlt hne, Finset.card_erase_of_mem hmem, h.components]

theorem union_spec (h : Partition n pairs uf) (ha : a < n) (hb : b < n) :
    ∃ joined uf', union uf a b = some (joined, uf') ∧
      (joined = true ↔ ¬ Related pairs a b) ∧ Partition n ((a, b) :: pairs) uf' := by
  obtain ⟨ra, uf₁, hfind₁, hra, hroot₁, h₁, hkept₁⟩ := find_spec h ha
  obtain ⟨rb, uf₂, hfind₂, hrb, hroot₂, h₂, hkept₂⟩ := find_spec h₁ hb
  have hrootA : RootOf (parentOf uf₂.parent) a ra := hkept₂ a ra (hkept₁ a ra hroot₁)
  have hrootB : RootOf (parentOf uf₂.parent) b rb := hkept₂ b rb hroot₂
  have hsame := h₂.root_iff hrootA hrootB
  have hsub : pairs ⊆ (a, b) :: pairs := List.subset_cons_self _ _
  have hnew : Related ((a, b) :: pairs) a b := Relation.EqvGen.rel a b List.mem_cons_self
  rw [union, hfind₁, Option.bind_eq_bind, Option.bind_some]
  simp only [hfind₂, Option.bind_some]
  by_cases heq : ra = rb
  · refine ⟨false, uf₂, ?_, ?_, ?_⟩
    · rw [if_pos heq]
      rfl
    · simp only [Bool.false_eq_true, false_iff, not_not]
      exact hsame.mp heq
    · refine ⟨h₂.length, h₂.rank, h₂.forest, ?_, ?_, h₂.components⟩
      · intro y s hs
        exact (h₂.sound y s hs).mono hsub
      · intro c d hmem
        rcases List.mem_cons.mp hmem with hpair | hold
        · obtain ⟨rfl, rfl⟩ := Prod.mk.inj hpair
          exact ⟨ra, hrootA, heq ▸ hrootB⟩
        · exact h₂.complete c d hold
  · have hsoundA : Related ((a, b) :: pairs) a ra := (h₂.sound a ra hrootA).mono hsub
    have hsoundB : Related ((a, b) :: pairs) b rb := (h₂.sound b rb hrootB).mono hsub
    have hroots : Related ((a, b) :: pairs) ra rb := hsoundA.symm.trans (hnew.trans hsoundB)
    have hmore : ∀ {r s : Nat}, (ra = r ∨ ra = s) → (rb = r ∨ rb = s) →
        ∀ c d, (c, d) ∈ (a, b) :: pairs → (c, d) ∈ pairs ∨
          ∃ t u, RootOf (parentOf uf₂.parent) c t ∧ RootOf (parentOf uf₂.parent) d u ∧
            (t = r ∨ t = s) ∧ (u = r ∨ u = s) := by
      intro r s hcr hds c d hmem
      rcases List.mem_cons.mp hmem with hpair | hold
      · obtain ⟨rfl, rfl⟩ := Prod.mk.inj hpair
        exact .inr ⟨ra, rb, hrootA, hrootB, hcr, hds⟩
      · exact .inl hold
    obtain ⟨rankA, hrankA⟩ := h₂.exists_rank hra
    obtain ⟨rankB, hrankB⟩ := h₂.exists_rank hrb
    rw [if_neg heq, hrankA, hrankB]
    simp only [Option.bind_eq_bind, Option.bind_some]
    have hjoined : (true = true ↔ ¬ Related pairs a b) := by
      rw [← hsame]
      simp [heq]
    -- The root of the lower rank is the one that is moved.
    split
    · obtain ⟨uf', hlink, hpart⟩ := link_spec h₂ hrb hra hrootB.fixed hrootA.fixed
        (Ne.symm heq) hsub hroots (hmore (.inr rfl) (.inl rfl))
      exact ⟨true, uf', by rw [hlink]; rfl, hjoined, hpart⟩
    · obtain ⟨uf', hlink, hpart⟩ := link_spec h₂ hra hrb hrootA.fixed hrootB.fixed
        heq hsub hroots.symm (hmore (.inl rfl) (.inr rfl))
      exact ⟨true, uf', by rw [hlink]; rfl, hjoined, hpart⟩

/-- The labels are the roots, whatever the calls before have compressed. -/
theorem labelsLoop_spec (xs : List Nat) :
    ∀ {uf : UnionFind}, Partition n pairs uf → (∀ x ∈ xs, x < n) →
      ∃ rs uf', labelsLoop xs uf = some (rs, uf') ∧
        List.Forall₂ (fun x r => r < n ∧ RootOf (parentOf uf.parent) x r) xs rs := by
  induction xs with
  | nil =>
    intro uf _ _
    exact ⟨[], uf, rfl, .nil⟩
  | cons x xs ih =>
    intro uf h hlt
    obtain ⟨r, uf₁, hfind, hr, hroot, h₁, hkept⟩ := find_spec h (hlt x List.mem_cons_self)
    obtain ⟨rs, uf', hrun, hrs⟩ := ih h₁ fun y hy => hlt y (List.mem_cons_of_mem x hy)
    refine ⟨r :: rs, uf', ?_, .cons ⟨hr, hroot⟩ (hrs.imp ?_)⟩
    · rw [labelsLoop, hfind, Option.bind_eq_bind, Option.bind_some]
      simp only [hrun]
      rfl
    · intro y s ⟨hs, hroot'⟩
      obtain ⟨t, ht⟩ := h.forest.acyclic y
      rw [hroot'.unique (hkept y t ht)] at hs ⊢
      exact ⟨hs, ht⟩

end Operations

/-! ### Runs -/

theorem new_partition (n : Nat) : Partition n [] (new n) := by
  have hself : ∀ x, parentOf (List.range n) x = x := by
    intro x
    rw [parentOf, List.getD_eq_getElem?_getD]
    by_cases hx : x < n
    · rw [List.getElem?_range hx]
      rfl
    · rw [List.getElem?_eq_none (by rw [List.length_range]; omega)]
      rfl
  have hroot : ∀ x r, RootOf (parentOf (List.range n)) x r → r = x :=
    fun x r hr => hr.unique (rootOf_self (hself x))
  refine ⟨List.length_range, List.length_replicate, ⟨?_, ?_⟩, ?_, ?_, ?_⟩
  · intro x hx
    show parentOf (List.range n) x < _
    rw [hself]
    exact hx
  · intro x
    exact ⟨x, rootOf_self (hself x)⟩
  · intro x r hr
    rw [hroot x r hr]
    exact Relation.EqvGen.refl x
  · intro a b hmem
    exact absurd hmem List.not_mem_nil
  · show n = (roots (List.range n)).card
    rw [roots, Finset.filter_true_of_mem fun x _ => hself x, Finset.card_range,
      List.length_range]

theorem step_spec {n : Nat} {pairs : List (Nat × Nat)} {uf : UnionFind}
    (h : Partition n pairs uf) (op : Op) (hop : op.InRange n) :
    ∃ uf', step uf op = some uf' ∧ Partition n (unions [op] ++ pairs) uf' := by
  match op with
  | .union a b =>
    obtain ⟨joined, uf', hrun, -, hpart⟩ := union_spec h hop.1 hop.2
    refine ⟨uf', ?_, hpart⟩
    rw [step, hrun]
    rfl
  | .find x =>
    obtain ⟨r, uf', hrun, -, -, hpart, -⟩ := find_spec h hop
    refine ⟨uf', ?_, hpart⟩
    rw [step, hrun]
    rfl

theorem Partition.congr {n : Nat} {pairs pairs' : List (Nat × Nat)} {uf : UnionFind}
    (h : Partition n pairs uf) (hsame : ∀ p, p ∈ pairs ↔ p ∈ pairs') :
    Partition n pairs' uf := by
  refine ⟨h.length, h.rank, h.forest, ?_, ?_, h.components⟩
  · intro x r hr
    exact (h.sound x r hr).mono fun p hp => (hsame p).mp hp
  · intro a b hmem
    exact h.complete a b ((hsame _).mpr hmem)

theorem run_spec {n : Nat} (ops : List Op) :
    ∀ {pairs : List (Nat × Nat)} {uf : UnionFind}, Partition n pairs uf →
      (∀ op ∈ ops, op.InRange n) →
      ∃ uf', run uf ops = some uf' ∧ Partition n (unions ops ++ pairs) uf' := by
  induction ops with
  | nil =>
    intro pairs uf h _
    exact ⟨uf, rfl, h⟩
  | cons op ops ih =>
    intro pairs uf h hrange
    obtain ⟨uf₁, hstep, h₁⟩ := step_spec h op (hrange op List.mem_cons_self)
    obtain ⟨uf', hrun, h'⟩ := ih h₁ fun op' hop => hrange op' (List.mem_cons_of_mem op hop)
    refine ⟨uf', ?_, h'.congr ?_⟩
    · rw [run, hstep]
      exact hrun
    · intro p
      have hsplit : unions (op :: ops) = unions [op] ++ unions ops := by
        cases op with
        | union a b => rfl
        | find x => rfl
      rw [hsplit]
      simp only [List.mem_append]
      tauto

/-- The roots are one for each class. -/
theorem Partition.ncard_classes {n : Nat} {pairs : List (Nat × Nat)} {uf : UnionFind}
    (h : Partition n pairs uf) : uf.components = (classes n pairs).ncard := by
  have himage : classes n pairs = classOf pairs '' (roots uf.parent : Set Nat) := by
    ext c
    constructor
    · intro ⟨x, hx, hc⟩
      rw [Set.mem_Iio, ← h.length] at hx
      obtain ⟨r, hr⟩ := h.forest.acyclic x
      obtain ⟨hlt, -⟩ := h.forest.climbs hx hr
      refine ⟨r, Finset.mem_coe.mpr (Finset.mem_filter.mpr ⟨Finset.mem_range.mpr hlt, hr.fixed⟩),
        ?_⟩
      rw [← hc]
      exact (classOf_eq (h.sound x r hr)).symm
    · intro ⟨r, hr, hc⟩
      obtain ⟨hlt, -⟩ := Finset.mem_filter.mp (Finset.mem_coe.mp hr)
      rw [Finset.mem_range, h.length] at hlt
      exact ⟨r, hlt, hc⟩
  rw [himage, Set.InjOn.ncard_image, Set.ncard_coe_finset, h.components]
  intro r hr s hs heq
  obtain ⟨-, hfixed⟩ := Finset.mem_filter.mp (Finset.mem_coe.mp hr)
  obtain ⟨-, hfixed'⟩ := Finset.mem_filter.mp (Finset.mem_coe.mp hs)
  exact (h.root_iff (rootOf_self hfixed) (rootOf_self hfixed')).mpr (related_of_classOf_eq heq)

end Canon.Algorithms.DisjointSets
