import Mathlib.Data.List.Nodup
import Mathlib.Data.Set.Basic

/-! # Strongly connected components

    Two nodes belong to one component when each is reached from the other.  A list of lists
    is the partition of a set of nodes into its components; there is only one, up to the
    order of the components and of the nodes in them, and renaming the nodes renames it.
-/

namespace Components

open Relation

variable {α β : Type*}

/-- Each of the two is reached from the other. -/
def Mutual (E : α → α → Prop) (x y : α) : Prop :=
  ReflTransGen E x y ∧ ReflTransGen E y x

theorem Mutual.refl (E : α → α → Prop) (x : α) : Mutual E x x := ⟨.refl, .refl⟩

variable {E : α → α → Prop}

theorem Mutual.symm {x y : α} (h : Mutual E x y) : Mutual E y x :=
  ⟨h.2, h.1⟩

theorem Mutual.trans {x y z : α} (h : Mutual E x y) (h' : Mutual E y z) :
    Mutual E x z := ⟨h.1.trans h'.1, h'.2.trans h.2⟩

/-- What goes on against the edges holds of all that reach a node. -/
theorem of_reaches {p : α → Prop} (hp : ∀ x y, E y x → p x → p y) {x y : α}
    (hpath : ReflTransGen E y x) (hx : p x) : p y := by
  induction hpath with
  | refl => exact hx
  | tail _ hedge ih => exact ih (hp _ _ hedge hx)

/-- A list that is a component: its nodes, and all of them. -/
structure IsComponent (E : α → α → Prop) (comp : List α) : Prop where
  nonempty : comp ≠ []
  mem_iff : ∀ x ∈ comp, ∀ y, y ∈ comp ↔ Mutual E x y

/-- A component from one of its nodes. -/
theorem isComponent_of_root {comp : List α} {v : α} (hv : v ∈ comp)
    (h : ∀ y, y ∈ comp ↔ Mutual E v y) : IsComponent E comp where
  nonempty := List.ne_nil_of_mem hv
  mem_iff := by
    intro x hx y
    have hvx := (h x).mp hx
    constructor
    · intro hy
      exact hvx.symm.trans ((h y).mp hy)
    · intro hxy
      exact (h y).mpr (hvx.trans hxy)

/-- Each of the nodes is in exactly one of the components. -/
structure IsPartition (E : α → α → Prop) (nodes : α → Prop) (comps : List (List α)) : Prop where
  nodup : comps.flatten.Nodup
  mem_iff : ∀ x, x ∈ comps.flatten ↔ nodes x
  component : ∀ comp ∈ comps, IsComponent E comp

/-- The components as sets. -/
def blocks (comps : List (List α)) : Set (Set α) := {s | ∃ comp ∈ comps, s = {x | x ∈ comp}}

variable {E : α → α → Prop} {nodes : α → Prop} {comps : List (List α)}

/-- The sets are the classes of the nodes. -/
theorem IsPartition.blocks_eq (h : IsPartition E nodes comps) :
    blocks comps = {s | ∃ x, nodes x ∧ s = {y | Mutual E x y}} := by
  ext s
  constructor
  · rintro ⟨comp, hcomp, rfl⟩
    obtain ⟨x, hx⟩ := List.exists_mem_of_ne_nil comp (h.component comp hcomp).nonempty
    refine ⟨x, (h.mem_iff x).mp (List.mem_flatten.mpr ⟨comp, hcomp, hx⟩), ?_⟩
    ext y
    exact (h.component comp hcomp).mem_iff x hx y
  · rintro ⟨x, hx, rfl⟩
    obtain ⟨comp, hcomp, hmem⟩ := List.mem_flatten.mp ((h.mem_iff x).mpr hx)
    refine ⟨comp, hcomp, ?_⟩
    ext y
    exact ((h.component comp hcomp).mem_iff x hmem y).symm

/-- There is one partition. -/
theorem IsPartition.blocks_unique {comps' : List (List α)} (h : IsPartition E nodes comps)
    (h' : IsPartition E nodes comps') : blocks comps = blocks comps' := by
  rw [h.blocks_eq, h'.blocks_eq]

/-! ### Renaming -/

/-- A renaming of the nodes under which the edges correspond. -/
structure Renaming (E : α → α → Prop) (nodes : α → Prop) (E' : β → β → Prop)
    (nodes' : β → Prop) (name : α → β) : Prop where
  inj : ∀ x y, nodes x → nodes y → name x = name y → x = y
  nodes_iff : ∀ z, nodes' z ↔ ∃ x, nodes x ∧ name x = z
  edge_iff : ∀ x y, nodes x → nodes y → (E x y ↔ E' (name x) (name y))
  closed : ∀ x y, nodes x → E x y → nodes y
  closed' : ∀ x z, nodes x → E' (name x) z → nodes' z

variable {E' : β → β → Prop} {nodes' : β → Prop} {name : α → β}

theorem Renaming.reaches (h : Renaming E nodes E' nodes' name) {x y : α} (hx : nodes x)
    (hreach : ReflTransGen E x y) : nodes y ∧ ReflTransGen E' (name x) (name y) := by
  induction hreach with
  | refl => exact ⟨hx, .refl⟩
  | tail _ hedge ih =>
    have hnode := h.closed _ _ ih.1 hedge
    exact ⟨hnode, ih.2.tail ((h.edge_iff _ _ ih.1 hnode).mp hedge)⟩

theorem Renaming.reaches_back (h : Renaming E nodes E' nodes' name) {x : α} {z : β}
    (hx : nodes x) (hreach : ReflTransGen E' (name x) z) :
    ∃ y, nodes y ∧ name y = z ∧ ReflTransGen E x y := by
  induction hreach with
  | refl => exact ⟨x, hx, rfl, .refl⟩
  | tail _ hedge ih =>
    obtain ⟨y, hy, rfl, hxy⟩ := ih
    obtain ⟨w, hw, rfl⟩ := (h.nodes_iff _).mp (h.closed' y _ hy hedge)
    exact ⟨w, hw, rfl, hxy.tail ((h.edge_iff y w hy hw).mpr hedge)⟩

theorem Renaming.mutual_iff (h : Renaming E nodes E' nodes' name) {x y : α} (hx : nodes x)
    (hy : nodes y) : Mutual E x y ↔ Mutual E' (name x) (name y) := by
  constructor
  · intro hmutual
    exact ⟨(h.reaches hx hmutual.1).2, (h.reaches hy hmutual.2).2⟩
  · intro hmutual
    obtain ⟨y', hy', hname, hxy⟩ := h.reaches_back hx hmutual.1
    obtain ⟨x', hx', hname', hyx⟩ := h.reaches_back hy hmutual.2
    rw [h.inj y' y hy' hy hname] at hxy
    rw [h.inj x' x hx' hx hname'] at hyx
    exact ⟨hxy, hyx⟩

/-- The renamed components are the components of the renamed nodes. -/
theorem IsPartition.rename (h : IsPartition E nodes comps)
    (hname : Renaming E nodes E' nodes' name) :
    IsPartition E' nodes' (comps.map fun comp => comp.map name) := by
  have hflatten : (comps.map fun comp => comp.map name).flatten = comps.flatten.map name :=
    List.map_flatten.symm
  have hnode : ∀ comp ∈ comps, ∀ x ∈ comp, nodes x := fun comp hcomp x hx =>
    (h.mem_iff x).mp (List.mem_flatten.mpr ⟨comp, hcomp, hx⟩)
  refine ⟨?_, ?_, ?_⟩
  · rw [hflatten]
    apply List.Nodup.map_on _ h.nodup
    intro x hx y hy hxy
    exact hname.inj x y ((h.mem_iff x).mp hx) ((h.mem_iff y).mp hy) hxy
  · intro z
    rw [hflatten, List.mem_map, hname.nodes_iff]
    constructor
    · intro ⟨x, hx, hz⟩
      exact ⟨x, (h.mem_iff x).mp hx, hz⟩
    · intro ⟨x, hx, hz⟩
      exact ⟨x, (h.mem_iff x).mpr hx, hz⟩
  · intro renamed hrenamed
    obtain ⟨comp, hcomp, rfl⟩ := List.mem_map.mp hrenamed
    obtain ⟨v, hv⟩ := List.exists_mem_of_ne_nil comp (h.component comp hcomp).nonempty
    have hvnode := hnode comp hcomp v hv
    apply isComponent_of_root (List.mem_map_of_mem hv)
    intro z
    rw [List.mem_map]
    constructor
    · intro ⟨y, hy, hz⟩
      rw [← hz]
      exact (hname.mutual_iff hvnode (hnode comp hcomp y hy)).mp
        (((h.component comp hcomp).mem_iff v hv y).mp hy)
    · intro hmutual
      obtain ⟨y, hynode, hz, -⟩ := hname.reaches_back hvnode hmutual.1
      rw [← hz] at hmutual
      have hy := (hname.mutual_iff hvnode hynode).mpr hmutual
      exact ⟨y, ((h.component comp hcomp).mem_iff v hv y).mpr hy, hz⟩

end Components
