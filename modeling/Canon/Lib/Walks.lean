import Mathlib.Logic.Relation

/-! # Walks in a graph

    A walk is the list of the nodes it passes, ends included.  A node is inevitable
    between two others when every walk between them passes it.
-/

namespace Walks

variable {α : Type*}

inductive Walk (E : α → α → Prop) (u : α) : α → List α → Prop where
  | start : Walk E u u [u]
  | step {v w : α} {nodes : List α} (h : Walk E u v nodes) (hedge : E v w) :
      Walk E u w (nodes ++ [w])

variable {E : α → α → Prop} {u v w d : α} {nodes : List α}

/-- Some walk leads from `u` to `v`. -/
def Reaches (E : α → α → Prop) (u v : α) : Prop := ∃ nodes, Walk E u v nodes

/-- Every walk from `u` to `v` passes `d`. -/
def Inevitable (E : α → α → Prop) (u v d : α) : Prop := ∀ nodes, Walk E u v nodes → d ∈ nodes

theorem Walk.start_mem (h : Walk E u v nodes) : u ∈ nodes := by
  induction h with
  | start => exact List.mem_singleton_self u
  | step _ _ ih => exact List.mem_append_left _ ih

/-- A walk after an edge. -/
theorem Walk.cons (hedge : E u v) (h : Walk E v w nodes) : Walk E u w (u :: nodes) := by
  induction h with
  | start => exact Walk.start.step hedge
  | step _ hlast ih => exact ih.step hlast

/-! ### Inevitable nodes -/

theorem inevitable_self_iff : Inevitable E u u d ↔ d = u := by
  constructor
  · intro h
    simpa using h _ .start
  · rintro rfl nodes hwalk
    exact hwalk.start_mem

theorem Inevitable.before (h : Inevitable E u v d) (hedge : E w v) (hne : d ≠ v) :
    Inevitable E u w d := by
  intro nodes hwalk
  have hmem := h _ (hwalk.step hedge)
  rcases List.mem_append.mp hmem with hmem | hmem
  · exact hmem
  · exact absurd (List.mem_singleton.mp hmem) hne

/-- A set of nodes for every node, none of which appears out of nothing on a walk. -/
theorem inevitable_of_carried {carried : α → α → Prop}
    (hstart : ∀ d, carried u d → d = u)
    (hedge : ∀ v w d, Reaches E u v → E v w → carried w d → d = w ∨ carried v d)
    (h : carried v d) : Inevitable E u v d := by
  intro nodes hwalk
  induction hwalk generalizing d with
  | start =>
    rw [hstart d h]
    exact List.mem_singleton_self u
  | step hwalk hstep ih =>
    rcases hedge _ _ d ⟨_, hwalk⟩ hstep h with rfl | hcarried
    · simp
    · exact List.mem_append_left _ (ih hcarried)

end Walks
