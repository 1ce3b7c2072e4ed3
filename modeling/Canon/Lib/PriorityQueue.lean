import Mathlib.Data.List.Sort

/-! # Priority queues

    A priority queue is modelled by its elements in the order in which they leave
    it.  Only the order of elements that tie is a choice of this model; where no
    two elements tie, putting back what was taken out restores the queue.
-/

universe u

/-- A queue whose elements stand in the order `le`. -/
structure PriorityQueue (α : Type u) (le : α → α → Prop) where
  items : List α
  sorted : items.Pairwise le

namespace PriorityQueue

variable {α : Type u} {le : α → α → Prop}

def empty : PriorityQueue α le := ⟨[], .nil⟩

@[simp] theorem items_empty : (empty : PriorityQueue α le).items = [] := rfl

theorem ext_items {q r : PriorityQueue α le} (h : q.items = r.items) : q = r := by
  cases q
  cases r
  simp only at h
  subst h
  rfl

/-- The first element and the queue without it. -/
def pop (q : PriorityQueue α le) : Option (α × PriorityQueue α le) :=
  match q with
  | ⟨[], _⟩ => none
  | ⟨a :: rest, sorted⟩ => some (a, ⟨rest, sorted.of_cons⟩)

theorem pop_eq_none_iff {q : PriorityQueue α le} : q.pop = none ↔ q.items = [] := by
  rcases q with ⟨_ | ⟨a, rest⟩, sorted⟩
  · simp [pop]
  · simp [pop]

theorem items_of_pop {q r : PriorityQueue α le} {a : α} (h : q.pop = some (a, r)) :
    q.items = a :: r.items := by
  rcases q with ⟨_ | ⟨b, rest⟩, sorted⟩
  · simp [pop] at h
  · simp only [pop, Option.some.injEq, Prod.mk.injEq] at h
    rw [← h.2, ← h.1]

/-- Elements are taken until one passes the test: the ones taken before it, that
    one, and the queue that is left. -/
def popUntil (test : α → Bool) :
    (items : List α) → items.Pairwise le → List α × Option α × PriorityQueue α le
  | [], _ => ([], none, empty)
  | a :: rest, sorted =>
    if test a then ([], some a, ⟨rest, sorted.of_cons⟩)
    else
      let (stash, found, left) := popUntil test rest sorted.of_cons
      (a :: stash, found, left)

theorem popUntil_spec (test : α → Bool) (items : List α) (sorted : items.Pairwise le) :
    let (stash, found, left) := popUntil test items sorted
    items = stash ++ found.toList ++ left.items ∧ (∀ a ∈ stash, test a = false) ∧
      (∀ a, found = some a → test a = true) ∧ (found = none → left.items = []) := by
  induction items with
  | nil => simp [popUntil]
  | cons a rest ih =>
    have hrest := ih sorted.of_cons
    by_cases htest : test a = true
    · simp [popUntil, htest]
    · simp only [popUntil, htest, Bool.false_eq_true, if_false]
      obtain ⟨hitems, hstash, hfound, hnone⟩ := hrest
      refine ⟨?_, ?_, hfound, hnone⟩
      · rw [List.cons_append, List.cons_append, ← hitems]
      · intro b hb
        rcases List.mem_cons.mp hb with rfl | hb
        · simpa using htest
        · exact hstash b hb

theorem popUntil_found (test : α → Bool) (items : List α) (sorted : items.Pairwise le) :
    (popUntil test items sorted).2.1 = items.find? test := by
  induction items with
  | nil => rfl
  | cons a rest ih =>
    by_cases htest : test a = true
    · simp [popUntil, htest]
    · simp only [popUntil, htest, Bool.false_eq_true, if_false, ih, List.find?_cons_of_neg,
        not_false_eq_true]

section Push

variable [DecidableRel le] [Std.Total le] [IsTrans α le]
variable (q : PriorityQueue α le)

/-- The element takes its place in the order. -/
def push (a : α) : PriorityQueue α le :=
  ⟨q.items.orderedInsert le a, q.sorted.orderedInsert a q.items⟩

def pushAll (l : List α) : PriorityQueue α le := l.foldl push q

theorem perm_push (a : α) : (q.push a).items.Perm (a :: q.items) :=
  List.perm_orderedInsert le a q.items

theorem perm_pushAll (l : List α) :
    (q.pushAll l).items.Perm (l ++ q.items) := by
  induction l generalizing q with
  | nil => exact .refl _
  | cons a l ih =>
    show ((q.push a).pushAll l).items.Perm (a :: (l ++ q.items))
    exact (ih _).trans (((q.perm_push a).append_left l).trans List.perm_middle)

/-- Putting elements back restores the queue they come from. -/
theorem pushAll_eq (q r : PriorityQueue α le) {l : List α}
    (hperm : r.items.Perm (l ++ q.items))
    (htie : ∀ a ∈ r.items, ∀ b ∈ r.items, le a b → le b a → a = b) : q.pushAll l = r := by
  have hsame : (q.pushAll l).items.Perm r.items := (perm_pushAll q l).trans hperm.symm
  apply ext_items
  apply List.Perm.eq_of_pairwise _ (q.pushAll l).sorted r.sorted hsame
  intro a b ha hb
  exact htie a (hsame.subset ha) b hb

theorem push_eq (q r : PriorityQueue α le) {a : α} (hperm : r.items.Perm (a :: q.items))
    (htie : ∀ a ∈ r.items, ∀ b ∈ r.items, le a b → le b a → a = b) : q.push a = r :=
  pushAll_eq q r (l := [a]) hperm htie

end Push

end PriorityQueue
