import Mathlib.Data.List.Nodup
import Mathlib.Logic.Relation

/-! # Depth-first search

    A search marks a node, goes to its neighbours that are not marked yet, and writes the
    node down before or after them.  It fails at a neighbour that is not known.

    * `visit`, `visitAll`: the search from one node and from several,
    * `Explored`: what a search has done; `visitAll_explored` for every search with enough
      fuel among known nodes, `visitAll_knows` for every search that ends,
    * `FinishOrder`: the order in which a search that writes afterwards finishes.
-/

namespace DepthFirst

open Relation

variable {α : Type*}

section Model

variable [DecidableEq α]

structure Search (α : Type*) where
  visited : α → Bool
  out : List α

def Search.mark (s : Search α) (v : α) : Search α :=
  { s with visited := Function.update s.visited v true }

def Search.emit (s : Search α) (v : α) : Search α := { s with out := s.out ++ [v] }

/-- The search from a node.  Nothing when the fuel is spent, and at a neighbour that is not
    known, which has no mark to look at. -/
def visit (known : α → Bool) (next : α → List α) (early : Bool) :
    Nat → α → Search α → Option (Search α)
  | 0, _, _ => none
  | fuel + 1, v, s => do
    let s := if early then (s.mark v).emit v else s.mark v
    let s ← (next v).foldlM
      (fun s u => if !known u then none else if s.visited u then some s
        else visit known next early fuel u s) s
    pure (if early then s else s.emit v)

/-- The search from several nodes one after the other. -/
def visitAll (known : α → Bool) (next : α → List α) (early : Bool) (fuel : Nat) (us : List α)
    (s : Search α) : Option (Search α) :=
  us.foldlM (fun s u => if !known u then none else if s.visited u then some s
    else visit known next early fuel u s) s

end Model

/-! ### What a search has done -/

/-- From a node to an unmarked neighbour. -/
def Fresh (next : α → List α) (s : Search α) (x y : α) : Prop :=
  y ∈ next x ∧ s.visited y = false

/-- A list of nodes in the order in which they were finished: behind some of the nodes
    before it a node reaches, and no edge leads from the others to it or to these. -/
inductive FinishOrder (E : α → α → Prop) : List α → Prop where
  | nil : FinishOrder E []
  | snoc {old desc : List α} {v : α} (h : FinishOrder E (old ++ desc))
      (hdesc : ∀ x ∈ desc, ReflTransGen E v x)
      (hold : ∀ x ∈ old, ∀ y, E x y → y ∉ desc ∧ y ≠ v) :
      FinishOrder E (old ++ desc ++ [v])

/-- No edge leads from the written nodes to an unmarked one. -/
def Closed (next : α → List α) (s : Search α) : Prop :=
  ∀ x ∈ s.out, ∀ y ∈ next x, s.visited y = true

/-- The search wrote `new`, from the roots `us`. -/
structure Explored (next : α → List α) (early : Bool) (us : List α) (s s' : Search α)
    (new : List α) : Prop where
  out : s'.out = s.out ++ new
  visited : ∀ x, s'.visited x = true ↔ s.visited x = true ∨ x ∈ new
  nodup : new.Nodup
  fresh : ∀ x ∈ new, s.visited x = false
  reached : ∀ x ∈ new, ∃ u ∈ us, s.visited u = false ∧ ReflTransGen (Fresh next s) u x
  covered : ∀ u ∈ us, s'.visited u = true
  closed : ∀ x ∈ new, ∀ y ∈ next x, s'.visited y = true
  ordered : early = false → Closed next s →
    FinishOrder (fun a b => b ∈ next a) s.out → FinishOrder (fun a b => b ∈ next a) s'.out

variable {known : α → Bool} {next : α → List α} {early : Bool} {us : List α}
  {s s₁ s' : Search α} {new : List α} {u v : α}

theorem Explored.mono (h : Explored next early us s s' new) {x : α} (hx : s.visited x = true) :
    s'.visited x = true := (h.visited x).mpr (.inl hx)

theorem Explored.unvisited (h : Explored next early us s s' new) {x : α}
    (hx : s'.visited x = false) : s.visited x = false := by
  cases hs : s.visited x with
  | false => rfl
  | true =>
    rw [h.mono hs] at hx
    cases hx

theorem Explored.keeps_closed (h : Explored next early us s s' new) (hs : Closed next s) :
    Closed next s' := by
  intro x hx y hy
  rw [h.out] at hx
  rcases List.mem_append.mp hx with hx | hx
  · exact h.mono (hs x hx y hy)
  · exact h.closed x hx y hy

theorem explored_nil (s : Search α) : Explored next early [] s s [] where
  out := (List.append_nil s.out).symm
  visited := fun _ => ⟨.inl, fun h => h.resolve_right List.not_mem_nil⟩
  nodup := List.nodup_nil
  fresh := fun _ hx => absurd hx List.not_mem_nil
  reached := fun _ hx => absurd hx List.not_mem_nil
  covered := fun _ hu => absurd hu List.not_mem_nil
  closed := fun _ hx => absurd hx List.not_mem_nil
  ordered := fun _ _ h => h

/-- A root that is marked already. -/
theorem Explored.skip (h : Explored next early us s s' new) (hu : s.visited u = true) :
    Explored next early (u :: us) s s' new where
  out := h.out
  visited := h.visited
  nodup := h.nodup
  fresh := h.fresh
  reached := by
    intro x hx
    obtain ⟨w, hw, hpath⟩ := h.reached x hx
    exact ⟨w, List.mem_cons_of_mem u hw, hpath⟩
  covered := by
    intro w hw
    rcases List.mem_cons.mp hw with rfl | hw
    · exact h.mono hu
    · exact h.covered w hw
  closed := h.closed
  ordered := h.ordered

/-- One root after another. -/
theorem Explored.append {us' new' : List α} (h : Explored next early us s s₁ new)
    (h' : Explored next early us' s₁ s' new') :
    Explored next early (us ++ us') s s' (new ++ new') where
  out := by rw [h'.out, h.out, List.append_assoc]
  visited := by
    intro x
    rw [h'.visited, h.visited, List.mem_append, or_assoc]
  nodup := by
    apply h.nodup.append h'.nodup
    intro x hx hx'
    have hmarked := (h.visited x).mpr (.inr hx)
    rw [h'.fresh x hx'] at hmarked
    cases hmarked
  fresh := by
    intro x hx
    rcases List.mem_append.mp hx with hx | hx
    · exact h.fresh x hx
    · exact h.unvisited (h'.fresh x hx)
  reached := by
    intro x hx
    rcases List.mem_append.mp hx with hx | hx
    · obtain ⟨w, hw, hfresh, hpath⟩ := h.reached x hx
      exact ⟨w, List.mem_append_left us' hw, hfresh, hpath⟩
    · obtain ⟨w, hw, hfresh, hpath⟩ := h'.reached x hx
      -- A path through nodes that are still unmarked is one through unmarked nodes.
      refine ⟨w, List.mem_append_right us hw, h.unvisited hfresh, ?_⟩
      exact hpath.lift id fun a b hab => ⟨hab.1, h.unvisited hab.2⟩
  covered := by
    intro w hw
    rcases List.mem_append.mp hw with hw | hw
    · exact h'.mono (h.covered w hw)
    · exact h'.covered w hw
  closed := by
    intro x hx y hy
    rcases List.mem_append.mp hx with hx | hx
    · exact h'.mono (h.closed x hx y hy)
    · exact h'.closed x hx y hy
  ordered := fun hlate hclosed horder =>
    h'.ordered hlate (h.keeps_closed hclosed) (h.ordered hlate hclosed horder)

section Steps

variable [DecidableEq α]

theorem mark_visited (s : Search α) (v x : α) :
    (s.mark v).visited x = true ↔ s.visited x = true ∨ x = v := by
  show Function.update s.visited v true x = true ↔ _
  by_cases h : x = v
  · rw [h, Function.update_self]
    simp
  · rw [Function.update_of_ne h]
    simp [h]

theorem unvisited_of_mark {x : α} (h : (s.mark v).visited x = false) :
    s.visited x = false ∧ x ≠ v := by
  constructor
  · cases hs : s.visited x with
    | false => rfl
    | true =>
      rw [(mark_visited s v x).mpr (.inl hs)] at h
      cases h
  · intro hx
    rw [(mark_visited s v x).mpr (.inr hx)] at h
    cases h

/-- The paths from the neighbours become paths from the node. -/
theorem reached_of_neighbours {rest : List α} (hv : s.visited v = false)
    (h : ∀ x ∈ rest, ∃ u ∈ next v, (s.mark v).visited u = false ∧
      ReflTransGen (Fresh next (s.mark v)) u x) {x : α} (hx : x ∈ rest ∨ x = v) :
    ∃ u ∈ [v], s.visited u = false ∧ ReflTransGen (Fresh next s) u x := by
  refine ⟨v, List.mem_singleton_self v, hv, ?_⟩
  rcases hx with hx | rfl
  · obtain ⟨u, hu, hfresh, hpath⟩ := h x hx
    have hfirst : Fresh next s v u := ⟨hu, (unvisited_of_mark hfresh).1⟩
    exact .head hfirst
      (hpath.lift id fun a b hab => ⟨hab.1, (unvisited_of_mark hab.2).1⟩)
  · exact .refl

/-- A search that writes the node before its neighbours. -/
theorem explored_early {rest : List α} (hv : s.visited v = false)
    (h : Explored next true (next v) ((s.mark v).emit v) s' rest) :
    Explored next true [v] s s' (v :: rest) where
  out := by
    rw [h.out]
    show s.out ++ [v] ++ rest = _
    rw [List.append_assoc]
    rfl
  visited := by
    intro x
    rw [h.visited, List.mem_cons]
    show (s.mark v).visited x = true ∨ x ∈ rest ↔ _
    rw [mark_visited, or_assoc]
  nodup := by
    refine List.nodup_cons.mpr ⟨?_, h.nodup⟩
    intro hmem
    exact (unvisited_of_mark (h.fresh v hmem)).2 rfl
  fresh := by
    intro x hx
    rcases List.mem_cons.mp hx with rfl | hx
    · exact hv
    · exact (unvisited_of_mark (h.fresh x hx)).1
  reached := fun x hx => reached_of_neighbours hv h.reached (List.mem_cons.mp hx).symm
  covered := by
    intro u hu
    rw [List.mem_singleton.mp hu]
    exact h.mono ((mark_visited s v v).mpr (.inr rfl))
  closed := by
    intro x hx y hy
    rcases List.mem_cons.mp hx with rfl | hx
    · exact h.covered y hy
    · exact h.closed x hx y hy
  ordered := fun hlate => absurd hlate (by decide)

/-- A search that writes the node after its neighbours. -/
theorem explored_late {rest : List α} (hv : s.visited v = false)
    (h : Explored next false (next v) (s.mark v) s' rest) :
    Explored next false [v] s (s'.emit v) (rest ++ [v]) where
  out := by
    show s'.out ++ [v] = _
    rw [h.out, List.append_assoc]
    rfl
  visited := by
    intro x
    show s'.visited x = true ↔ _
    rw [h.visited, mark_visited, List.mem_append, List.mem_singleton, or_assoc,
      @or_comm (x = v)]
  nodup := by
    apply h.nodup.append (List.nodup_singleton v)
    intro x hx hxv
    exact (unvisited_of_mark (h.fresh x hx)).2 (List.mem_singleton.mp hxv)
  fresh := by
    intro x hx
    rcases List.mem_append.mp hx with hx | hx
    · exact (unvisited_of_mark (h.fresh x hx)).1
    · rw [List.mem_singleton.mp hx]
      exact hv
  reached := by
    intro x hx
    apply reached_of_neighbours hv h.reached
    rw [List.mem_append, List.mem_singleton] at hx
    exact hx
  covered := by
    intro u hu
    rw [List.mem_singleton.mp hu]
    exact h.mono ((mark_visited s v v).mpr (.inr rfl))
  closed := by
    intro x hx y hy
    rcases List.mem_append.mp hx with hx | hx
    · exact h.closed x hx y hy
    · rw [List.mem_singleton.mp hx] at hy
      exact h.covered y hy
  ordered := by
    intro hlate hclosed horder
    have hmarked : Closed next (s.mark v) := fun x hx y hy =>
      (mark_visited s v y).mpr (.inl (hclosed x hx y hy))
    have hrest := h.ordered hlate hmarked horder
    show FinishOrder _ (s'.out ++ [v])
    rw [h.out] at hrest ⊢
    apply FinishOrder.snoc hrest
    · intro x hx
      obtain ⟨u, hu, -, hpath⟩ := h.reached x hx
      exact .head hu (hpath.lift id fun a b hab => hab.1)
    -- What the nodes written before lead to was marked before.
    · intro x hx y hy
      have hmark := hclosed x hx y hy
      constructor
      · intro hmem
        rw [(unvisited_of_mark (h.fresh y hmem)).1] at hmark
        cases hmark
      · intro heq
        rw [heq, hv] at hmark
        cases hmark

end Steps

/-! ### Enough fuel -/

/-- The nodes that are not marked. -/
def unmarked (nodes : List α) (s : Search α) : Nat := nodes.countP fun x => !s.visited x

theorem unmarked_le (nodes : List α) (h : ∀ x, s.visited x = true → s'.visited x = true) :
    unmarked nodes s' ≤ unmarked nodes s := by
  apply List.countP_mono_left
  intro x _ hx
  rw [Bool.not_eq_true'] at hx ⊢
  cases hs : s.visited x with
  | false => rfl
  | true =>
    rw [h x hs] at hx
    cases hx

section Fuel

variable [DecidableEq α]

theorem unmarked_mark_lt {nodes : List α} (hmem : v ∈ nodes) (hv : s.visited v = false) :
    unmarked nodes (s.mark v) < unmarked nodes s := by
  obtain ⟨front, back, rfl⟩ := List.append_of_mem hmem
  have hmono : ∀ x, s.visited x = true → (s.mark v).visited x = true := fun x hx =>
    (mark_visited s v x).mpr (.inl hx)
  have hfront := unmarked_le front hmono
  have hback := unmarked_le back hmono
  have hself : (s.mark v).visited v = true := (mark_visited s v v).mpr (.inr rfl)
  rw [unmarked, unmarked] at hfront hback ⊢
  rw [List.countP_append, List.countP_append, List.countP_cons, List.countP_cons, hself, hv]
  simp only [Bool.not_true, Bool.not_false, if_true, if_false, Bool.false_eq_true]
  omega

/-- Searches from several nodes, when those from single nodes are known. -/
theorem visitAll_of_visit {nodes : List α} {fuel : Nat} (hknown : ∀ x ∈ nodes, known x = true)
    (hvisit : ∀ v s, v ∈ nodes → s.visited v = false → unmarked nodes s ≤ fuel →
      ∃ s' new, visit known next early fuel v s = some s' ∧ Explored next early [v] s s' new) :
    ∀ us s, (∀ u ∈ us, u ∈ nodes) → unmarked nodes s ≤ fuel →
      ∃ s' new, visitAll known next early fuel us s = some s' ∧
        Explored next early us s s' new := by
  intro us
  induction us with
  | nil => exact fun s _ _ => ⟨s, [], rfl, explored_nil s⟩
  | cons u us ih =>
    intro s hnodes hfuel
    obtain ⟨hu, hus⟩ := List.forall_mem_cons.mp hnodes
    have hpass : ¬ (!known u) = true := by rw [hknown u hu]; decide
    cases hmark : s.visited u with
    | true =>
      obtain ⟨s', new, hrun, hexplored⟩ := ih s hus hfuel
      refine ⟨s', new, ?_, hexplored.skip hmark⟩
      rw [visitAll, List.foldlM_cons, if_neg hpass, if_pos hmark]
      exact hrun
    | false =>
      obtain ⟨s₁, first, hfirst, hexplored⟩ := hvisit u s hu hmark hfuel
      have hless := unmarked_le nodes fun x hx => hexplored.mono hx
      obtain ⟨s', new, hrun, hrest⟩ := ih s₁ hus (by omega)
      refine ⟨s', first ++ new, ?_, hexplored.append hrest⟩
      rw [visitAll, List.foldlM_cons, if_neg hpass, if_neg (by rw [hmark]; decide), hfirst]
      exact hrun

/-- Where the neighbours of nodes are nodes, a search from an unmarked node ends. -/
theorem visit_explored {nodes : List α} (hknown : ∀ x ∈ nodes, known x = true)
    (hnext : ∀ x ∈ nodes, ∀ y ∈ next x, y ∈ nodes) (fuel : Nat) :
    ∀ v s, v ∈ nodes → s.visited v = false → unmarked nodes s ≤ fuel →
      ∃ s' new, visit known next early fuel v s = some s' ∧
        Explored next early [v] s s' new := by
  induction fuel with
  | zero =>
    intro v s hmem hv hfuel
    have hless := unmarked_mark_lt hmem hv
    omega
  | succ fuel ih =>
    intro v s hmem hv hfuel
    have hless := unmarked_mark_lt hmem hv
    have hall := visitAll_of_visit hknown ih (next v)
    cases early with
    | true =>
      obtain ⟨s', new, hrun, hexplored⟩ := hall ((s.mark v).emit v) (hnext v hmem)
        (show unmarked nodes (s.mark v) ≤ fuel by omega)
      refine ⟨s', v :: new, ?_, explored_early hv hexplored⟩
      rw [visit]
      show (visitAll known next true fuel (next v) ((s.mark v).emit v) >>= fun s => pure s) = _
      rw [hrun]
      rfl
    | false =>
      obtain ⟨s', new, hrun, hexplored⟩ := hall (s.mark v) (hnext v hmem) (by omega)
      refine ⟨s'.emit v, new ++ [v], ?_, explored_late hv hexplored⟩
      rw [visit]
      show (visitAll known next false fuel (next v) (s.mark v) >>= fun s => pure (s.emit v)) = _
      rw [hrun]
      rfl

theorem visitAll_explored {nodes : List α} (hknown : ∀ x ∈ nodes, known x = true)
    (hnext : ∀ x ∈ nodes, ∀ y ∈ next x, y ∈ nodes) {fuel : Nat} (hus : ∀ u ∈ us, u ∈ nodes)
    (hfuel : unmarked nodes s ≤ fuel) :
    ∃ s' new, visitAll known next early fuel us s = some s' ∧
      Explored next early us s s' new :=
  visitAll_of_visit hknown (visit_explored hknown hnext fuel) us s hus hfuel

end Fuel

/-! ### Searches that end -/

section Ends

variable [DecidableEq α]

/-- The neighbours of the nodes that were marked are known. -/
structure Knows (known : α → Bool) (next : α → List α) (s s' : Search α) : Prop where
  mono : ∀ x, s.visited x = true → s'.visited x = true
  marked : ∀ x, s'.visited x = true → s.visited x = true ∨ ∀ y ∈ next x, known y = true

omit [DecidableEq α] in
theorem Knows.refl (s : Search α) : Knows known next s s := ⟨fun _ hx => hx, fun _ hx => .inl hx⟩

omit [DecidableEq α] in
theorem Knows.trans (h : Knows known next s s₁) (h' : Knows known next s₁ s') :
    Knows known next s s' := by
  refine ⟨fun x hx => h'.mono x (h.mono x hx), ?_⟩
  intro x hx
  rcases h'.marked x hx with hx | hx
  · exact h.marked x hx
  · exact .inr hx

theorem visitAll_knows_of_visit {fuel : Nat}
    (hvisit : ∀ v s s', visit known next early fuel v s = some s' →
      Knows known next s s' ∧ s'.visited v = true) :
    ∀ us s s', visitAll known next early fuel us s = some s' →
      Knows known next s s' ∧ ∀ u ∈ us, known u = true ∧ s'.visited u = true := by
  intro us
  induction us with
  | nil =>
    intro s s' h
    rw [← Option.some.inj h]
    exact ⟨.refl s, fun u hu => absurd hu List.not_mem_nil⟩
  | cons u us ih =>
    intro s s' h
    rw [visitAll, List.foldlM_cons] at h
    by_cases hknown : known u = true
    · rw [if_neg (by rw [hknown]; decide)] at h
      obtain ⟨s₁, hfirst, hrest⟩ := Option.bind_eq_some_iff.mp h
      have hone : Knows known next s s₁ ∧ s₁.visited u = true := by
        by_cases hmark : s.visited u = true
        · rw [if_pos hmark] at hfirst
          rw [← Option.some.inj hfirst]
          exact ⟨.refl s, hmark⟩
        · rw [if_neg hmark] at hfirst
          exact hvisit u s s₁ hfirst
      obtain ⟨hknows, hall⟩ := ih s₁ s' hrest
      refine ⟨hone.1.trans hknows, ?_⟩
      intro w hw
      rcases List.mem_cons.mp hw with rfl | hw
      · exact ⟨hknown, hknows.mono w hone.2⟩
      · exact hall w hw
    · rw [if_pos (by rw [Bool.eq_false_iff.mpr hknown]; decide)] at h
      cases h

theorem visit_knows (fuel : Nat) : ∀ v s s', visit known next early fuel v s = some s' →
    Knows known next s s' ∧ s'.visited v = true := by
  induction fuel with
  | zero =>
    intro v s s' h
    cases h
  | succ fuel ih =>
    intro v s s' h
    rw [visit] at h
    obtain ⟨t, hloop, ht⟩ := Option.bind_eq_some_iff.mp h
    obtain ⟨hknows, hall⟩ := visitAll_knows_of_visit ih (next v) _ t hloop
    have hstart : (if early then (s.mark v).emit v else s.mark v).visited = (s.mark v).visited := by
      cases early with
      | true => rfl
      | false => rfl
    have hend : s'.visited = t.visited := by
      rw [← Option.some.inj ht]
      cases early with
      | true => rfl
      | false => rfl
    have hv : s'.visited v = true := by
      rw [hend]
      apply hknows.mono
      rw [hstart]
      exact (mark_visited s v v).mpr (.inr rfl)
    refine ⟨⟨?_, ?_⟩, hv⟩
    · intro x hx
      rw [hend]
      apply hknows.mono
      rw [hstart]
      exact (mark_visited s v x).mpr (.inl hx)
    · intro x hx
      rw [hend] at hx
      rcases hknows.marked x hx with hx | hx
      · rw [hstart] at hx
        rcases (mark_visited s v x).mp hx with hx | rfl
        · exact .inl hx
        · exact .inr fun y hy => (hall y hy).1
      · exact .inr hx

/-- A search that ends has met known nodes only. -/
theorem visitAll_knows {fuel : Nat} (h : visitAll known next early fuel us s = some s') :
    Knows known next s s' ∧ ∀ u ∈ us, known u = true ∧ s'.visited u = true :=
  visitAll_knows_of_visit (visit_knows fuel) us s s' h

end Ends

/-! ### The order of finishing -/

/-- What was finished before a node, split where its search began. -/
theorem FinishOrder.split {E : α → α → Prop} {order : List α} (h : FinishOrder E order)
    {before after : List α} (hv : order = before ++ v :: after) :
    ∃ old desc, before = old ++ desc ∧ (∀ x ∈ desc, ReflTransGen E v x) ∧
      ∀ x ∈ old, ∀ y, E x y → y ∉ desc ∧ y ≠ v := by
  induction h generalizing after with
  | nil => simp at hv
  | @snoc old desc w horder hdesc hold ih =>
    rcases List.eq_nil_or_concat after with rfl | ⟨after, z, rfl⟩
    · obtain ⟨hbefore, hw⟩ := List.append_inj' hv rfl
      rw [← (List.cons.inj hw).1]
      exact ⟨old, desc, hbefore.symm, hdesc, hold⟩
    · have hinit : old ++ desc = before ++ v :: after := by
        rw [List.concat_eq_append, ← List.cons_append, ← List.append_assoc] at hv
        exact (List.append_inj' hv rfl).1
      exact ih hinit

/-- A node that reaches `v` through nodes finished no later than `v` is reached from it. -/
theorem FinishOrder.reaches_back {E : α → α → Prop} {order before after : List α}
    (h : FinishOrder E order) (hv : order = before ++ v :: after) {x : α}
    (hpath : ReflTransGen (fun a b => E b a ∧ (b ∈ before ∨ b = v)) v x) :
    ReflTransGen E v x := by
  obtain ⟨old, desc, hbefore, hdesc, hold⟩ := h.split hv
  have hmem : x ∈ desc ∨ x = v := by
    induction hpath with
    | refl => exact .inr rfl
    | @tail a b _ hstep ih =>
      rcases hstep.2 with hb | hb
      · rw [hbefore] at hb
        rcases List.mem_append.mp hb with hb | hb
        -- No edge leads out of the older nodes.
        · have hnone := hold b hb a hstep.1
          rcases ih with ha | ha
          · exact absurd ha hnone.1
          · exact absurd ha hnone.2
        · exact .inl hb
      · exact .inr hb
  rcases hmem with hx | rfl
  · exact hdesc x hx
  · exact .refl

end DepthFirst
