import Canon.Lib.Flow
import Mathlib.Algebra.BigOperators.Group.Finset.Piecewise
import Mathlib.Order.Interval.Finset.Nat
import Mathlib.Algebra.Order.Ring.Int
import Mathlib.Tactic.Abel
import Mathlib.Tactic.Ring

/-! # Push and relabel

    Every edge has a half at each of its ends, the mates: one holds what can still be pushed
    along the edge, the other what can be pushed back.  A vertex may keep more than flows out
    of it, its excess; heights say which way it is pushed.

    * `Network`, `Preflow`, `Valid`: halves, what they may hold, heights that fall by one,
    * `Preflow.sum_excess`: the excess of a set of vertices crosses its border,
    * `Preflow.reaches_source`: what is in excess can be pushed back to the source,
    * `height_lt_of_reaches`: how far heights differ along what is left,
    * `isMaxFlow_of_settled`: without excess it is a maximum flow,
    * `Inv.push`, `Inv.relabel`, `rank_push`, `rank_relabel`: the two steps.
-/

namespace PushRelabel

open Relation Flow

/-- A loop is its own mate. -/
structure Network (V ι : Type*) where
  halves : Finset ι
  tail : ι → V
  head : ι → V
  mate : ι → ι
  capacity : ι → Int
  mate_mem : ∀ p ∈ halves, mate p ∈ halves
  mate_mate : ∀ p ∈ halves, mate (mate p) = p
  tail_mate : ∀ p ∈ halves, tail (mate p) = head p
  mate_loop : ∀ p ∈ halves, head p = tail p → mate p = p
  capacity_nonneg : ∀ p ∈ halves, 0 ≤ capacity p

variable {V ι : Type*}

namespace Network

variable {N : Network V ι} {p : ι}

theorem head_mate (hp : p ∈ N.halves) : N.head (N.mate p) = N.tail p := by
  rw [← N.tail_mate _ (N.mate_mem p hp), N.mate_mate p hp]

theorem mate_ne (hp : p ∈ N.halves) (hne : N.head p ≠ N.tail p) : N.mate p ≠ p := by
  intro heq
  apply hne
  rw [← N.tail_mate p hp, heq]

/-- The capacity between two vertices, that of parallel edges together. -/
def between [DecidableEq V] (N : Network V ι) (u v : V) : Int :=
  ∑ p ∈ N.halves with N.tail p = u ∧ N.head p = v, N.capacity p

end Network

section Sums

variable [DecidableEq V] (N : Network V ι)

/-- A sum over the halves from one set of vertices to another, by their ends. -/
theorem sum_ends (F : ι → Int) (A B : Finset V) :
    ∑ u ∈ A, ∑ v ∈ B, ∑ p ∈ N.halves with N.tail p = u ∧ N.head p = v, F p =
      ∑ p ∈ N.halves with N.tail p ∈ A ∧ N.head p ∈ B, F p := by
  have hinner : ∀ u, ∑ v ∈ B, ∑ p ∈ N.halves with N.tail p = u ∧ N.head p = v, F p =
      ∑ p ∈ N.halves with N.head p ∈ B ∧ N.tail p = u, F p := by
    intro u
    have h := Finset.sum_fiberwise_eq_sum_filter (N.halves.filter (N.tail · = u)) B N.head F
    rw [Finset.filter_filter] at h
    simp only [Finset.filter_filter] at h
    rw [h]
    simp only [and_comm]
  have h := Finset.sum_fiberwise_eq_sum_filter (N.halves.filter (N.head · ∈ B)) A N.tail F
  simp only [Finset.filter_filter] at h
  simp only [hinner]
  rw [h]
  simp only [and_comm]

omit [DecidableEq V] in
/-- The halves from one set to another, through their mates. -/
theorem sum_mate (F : ι → Int) (A B : V → Prop) [DecidablePred A] [DecidablePred B] :
    ∑ p ∈ N.halves with A (N.tail p) ∧ B (N.head p), F (N.mate p) =
      ∑ p ∈ N.halves with B (N.tail p) ∧ A (N.head p), F p := by
  have hmem : ∀ {A B : V → Prop} [DecidablePred A] [DecidablePred B],
      ∀ p ∈ N.halves.filter (fun p => A (N.tail p) ∧ B (N.head p)),
      N.mate p ∈ N.halves.filter (fun p => B (N.tail p) ∧ A (N.head p)) := by
    intro A B _ _ p hp
    obtain ⟨hp, hA, hB⟩ := Finset.mem_filter.mp hp
    rw [Finset.mem_filter, N.tail_mate p hp, Network.head_mate hp]
    exact ⟨N.mate_mem p hp, hB, hA⟩
  apply Finset.sum_bij' (fun p _ => N.mate p) (fun p _ => N.mate p)
  · exact hmem
  · exact hmem
  · intro p hp
    exact N.mate_mate p (Finset.mem_filter.mp hp).1
  · intro p hp
    exact N.mate_mate p (Finset.mem_filter.mp hp).1
  · intro p _
    rfl

end Sums

/-! ### Preflows -/

structure Preflow [DecidableEq V] (N : Network V ι) (s : V) (cap : ι → Int)
    (excess : V → Int) : Prop where
  nonneg : ∀ p ∈ N.halves, 0 ≤ cap p
  pair : ∀ p ∈ N.halves, cap p + cap (N.mate p) = N.capacity p + N.capacity (N.mate p)
  excess_eq : ∀ v, v ≠ s →
    excess v = ∑ p ∈ N.halves with N.tail p = v, (cap p - N.capacity p)
  excess_nonneg : ∀ v, v ≠ s → 0 ≤ excess v

/-- Something can be pushed from one vertex to the other. -/
def Residual (N : Network V ι) (cap : ι → Int) (u v : V) : Prop :=
  ∃ p ∈ N.halves, N.tail p = u ∧ N.head p = v ∧ 0 < cap p

/-- Where something can be pushed, heights fall by one at most. -/
def Valid (N : Network V ι) (cap : ι → Int) (height : V → Nat) : Prop :=
  ∀ p ∈ N.halves, 0 < cap p → height (N.tail p) ≤ height (N.head p) + 1

theorem exists_height {N : Network V ι} {cap : ι → Int} {height : V → Nat}
    (hvalid : Valid N cap height) {u v : V} (h : ReflTransGen (Residual N cap) u v) {k : Nat}
    (hv : height v ≤ k) (hu : k ≤ height u) : ∃ x, height x = k := by
  induction h using ReflTransGen.head_induction_on with
  | refl => exact ⟨v, Nat.le_antisymm hv hu⟩
  | @head u x hstep _ ih =>
    obtain ⟨p, hp, htail, hhead, hcap⟩ := hstep
    have hfall := hvalid p hp hcap
    rw [htail, hhead] at hfall
    by_cases hx : k ≤ height x
    · exact ih hx
    · exact ⟨u, by omega⟩

section

variable [Fintype V] [DecidableEq V] {N : Network V ι} {s t : V} {cap : ι → Int}
  {excess : V → Int} {height : V → Nat}

omit [Fintype V] in
theorem Preflow.sum_excess (h : Preflow N s cap excess) {R : Finset V} (hs : s ∉ R) :
    ∑ v ∈ R, excess v =
      ∑ p ∈ N.halves with N.tail p ∈ R ∧ N.head p ∉ R, (cap p - N.capacity p) := by
  have hcollect : ∑ v ∈ R, excess v =
      ∑ p ∈ N.halves with N.tail p ∈ R, (cap p - N.capacity p) := by
    rw [← Finset.sum_fiberwise_eq_sum_filter]
    apply Finset.sum_congr rfl
    intro v hv
    apply h.excess_eq v
    intro heq
    rw [heq] at hv
    exact hs hv
  have hsplit := Finset.sum_filter_add_sum_filter_not
    (N.halves.filter (N.tail · ∈ R)) (N.head · ∈ R) (fun p => cap p - N.capacity p)
  simp only [Finset.filter_filter] at hsplit
  -- within the set the two halves of an edge cancel
  have hinside : ∑ p ∈ N.halves with N.tail p ∈ R ∧ N.head p ∈ R, (cap p - N.capacity p) = 0 := by
    apply Finset.sum_involution (fun p _ => N.mate p)
    · intro p hp
      have hpair := h.pair p (Finset.mem_filter.mp hp).1
      omega
    · intro p hp hne heq
      apply hne
      have hpair := h.pair p (Finset.mem_filter.mp hp).1
      rw [heq] at hpair
      omega
    · intro p hp
      obtain ⟨hp, htail, hhead⟩ := Finset.mem_filter.mp hp
      rw [Finset.mem_filter, N.tail_mate p hp, Network.head_mate hp]
      exact ⟨N.mate_mem p hp, hhead, htail⟩
    · intro p hp
      exact N.mate_mate p (Finset.mem_filter.mp hp).1
  rw [hcollect, ← hsplit, hinside, zero_add]

theorem Preflow.reaches_source (h : Preflow N s cap excess) {u : V}
    (hpos : 0 < excess u) : ReflTransGen (Residual N cap) u s := by
  classical
  by_contra hnot
  obtain ⟨R, hmem⟩ : ∃ R : Finset V, ∀ v, v ∈ R ↔ ReflTransGen (Residual N cap) u v :=
    ⟨Finset.univ.filter (ReflTransGen (Residual N cap) u ·), fun v => by simp⟩
  have hs : s ∉ R := fun h => hnot ((hmem s).mp h)
  have hsum := h.sum_excess hs
  -- nothing can be pushed out of the set, so that it has kept nothing
  have hborder : ∑ p ∈ N.halves with N.tail p ∈ R ∧ N.head p ∉ R, (cap p - N.capacity p) ≤ 0 := by
    apply Finset.sum_nonpos
    intro p hp
    obtain ⟨hp, htail, hhead⟩ := Finset.mem_filter.mp hp
    have hzero : ¬ 0 < cap p := by
      intro hcap
      apply hhead
      exact (hmem _).mpr (((hmem _).mp htail).tail ⟨p, hp, rfl, rfl, hcap⟩)
    have hcapacity := N.capacity_nonneg p hp
    omega
  have hle : excess u ≤ ∑ v ∈ R, excess v := by
    apply Finset.single_le_sum _ ((hmem u).mpr .refl)
    intro v hv
    apply h.excess_nonneg v
    intro heq
    rw [heq] at hv
    exact hs hv
  omega

omit [DecidableEq V] in
/-- Along a path no height is left out, and there are no more heights than vertices. -/
theorem height_lt_of_reaches (hvalid : Valid N cap height) {u v : V}
    (h : ReflTransGen (Residual N cap) u v) : height u < height v + Fintype.card V := by
  by_contra hnot
  have hsub : Finset.Icc (height v) (height v + Fintype.card V) ⊆
      Finset.univ.image height := by
    intro k hk
    obtain ⟨hlow, hhigh⟩ := Finset.mem_Icc.mp hk
    obtain ⟨x, hx⟩ := exists_height hvalid h hlow (by omega)
    exact Finset.mem_image.mpr ⟨x, Finset.mem_univ x, hx⟩
  have hcard := (Finset.card_le_card hsub).trans Finset.card_image_le
  rw [Nat.card_Icc, Finset.card_univ] at hcard
  omega

/-! ### The flow of a preflow -/

/-- What a preflow sends from one vertex to another. -/
def flowOf (N : Network V ι) (cap : ι → Int) (u v : V) : Int :=
  ∑ p ∈ N.halves with N.tail p = u ∧ N.head p = v, max 0 (N.capacity p - cap p)

theorem Preflow.gain_flowOf (h : Preflow N s cap excess) {v : V} (hv : v ≠ s) :
    gain (flowOf N cap) v = excess v := by
  have hin : ∑ u, flowOf N cap u v =
      ∑ p ∈ N.halves with N.tail p = v, max 0 (cap p - N.capacity p) := by
    have hends := sum_ends N (fun p => max 0 (N.capacity p - cap p)) Finset.univ {v}
    simp only [Finset.sum_singleton, Finset.mem_univ, Finset.mem_singleton] at hends
    have hmate := sum_mate N (fun p => max 0 (N.capacity p - cap p)) (· = v) (fun _ => True)
    simp only [and_true, true_and] at hmate hends
    unfold flowOf
    rw [hends, ← hmate]
    apply Finset.sum_congr rfl
    intro p hp
    have hpair := h.pair p (Finset.mem_filter.mp hp).1
    congr 1
    omega
  have hout : ∑ w, flowOf N cap v w =
      ∑ p ∈ N.halves with N.tail p = v, max 0 (N.capacity p - cap p) := by
    have hends := sum_ends N (fun p => max 0 (N.capacity p - cap p)) {v} Finset.univ
    simp only [Finset.sum_singleton, Finset.mem_univ, Finset.mem_singleton, and_true] at hends
    exact hends
  unfold gain
  rw [hin, hout, h.excess_eq v hv, ← Finset.sum_sub_distrib]
  apply Finset.sum_congr rfl
  intro p _
  omega

theorem Preflow.isFlow (h : Preflow N s cap excess)
    (hzero : ∀ v, v ≠ s → v ≠ t → excess v = 0) : IsFlow N.between s t (flowOf N cap) where
  nonneg := by
    intro u v
    apply Finset.sum_nonneg
    intro p _
    exact le_max_left _ _
  le_capacity := by
    intro u v
    apply Finset.sum_le_sum
    intro p hp
    have hp := (Finset.mem_filter.mp hp).1
    have hnonneg := h.nonneg p hp
    have hcapacity := N.capacity_nonneg p hp
    omega
  conserved := by
    intro v hs ht
    have hgain := h.gain_flowOf hs
    rw [hzero v hs ht] at hgain
    unfold gain at hgain
    omega

/-- A cut between the vertices from which something can be pushed to the sink and the
    others. -/
theorem Preflow.exists_cut (h : Preflow N s cap excess) (hvalid : Valid N cap height)
    (hs : height s = Fintype.card V) (ht : height t = 0)
    (hzero : ∀ v, v ≠ s → v ≠ t → excess v = 0) :
    ∃ S, IsCut s t S ∧ excess t = cutCapacity N.between S := by
  classical
  obtain ⟨S, hmem⟩ : ∃ S : Finset V, ∀ v, v ∈ S ↔ ¬ ReflTransGen (Residual N cap) v t :=
    ⟨Finset.univ.filter (¬ ReflTransGen (Residual N cap) · t), fun v => by simp⟩
  have hmem' : ∀ v, v ∈ Sᶜ ↔ ReflTransGen (Residual N cap) v t := by
    intro v
    rw [Finset.mem_compl, hmem, not_not]
  have hsource : s ∈ S := by
    rw [hmem]
    intro hreach
    have hlt := height_lt_of_reaches hvalid hreach
    omega
  have hsink : t ∉ S := by
    rw [hmem]
    exact not_not_intro .refl
  refine ⟨S, ⟨hsource, hsink⟩, ?_⟩
  have hsum := h.sum_excess (R := Sᶜ) (fun hs => Finset.mem_compl.mp hs hsource)
  have hsingle : ∑ v ∈ Sᶜ, excess v = excess t := by
    apply Finset.sum_eq_single t
    · intro v hv hne
      apply hzero v _ hne
      intro heq
      rw [heq] at hv
      exact Finset.mem_compl.mp hv hsource
    · intro h
      exact absurd (Finset.mem_compl.mpr hsink) h
  have hcut : cutCapacity N.between S =
      ∑ p ∈ N.halves with N.tail p ∈ S ∧ N.head p ∈ Sᶜ, N.capacity p := by
    exact sum_ends N N.capacity S Sᶜ
  rw [← hsingle, hsum, hcut, ← sum_mate N N.capacity (· ∈ Sᶜ) (· ∈ S)]
  simp only [Finset.mem_compl, not_not]
  apply Finset.sum_congr rfl
  intro p hp
  obtain ⟨hp, htail, hhead⟩ := Finset.mem_filter.mp hp
  -- nothing can be pushed into the set
  have hback : ¬ 0 < cap (N.mate p) := by
    intro hcap
    apply (hmem _).mp hhead
    apply ReflTransGen.head _ ((hmem' _).mp (Finset.mem_compl.mpr htail))
    exact ⟨N.mate p, N.mate_mem p hp, N.tail_mate p hp, Network.head_mate hp, hcap⟩
  have hpair := h.pair p hp
  have hnonneg := h.nonneg _ (N.mate_mem p hp)
  omega

theorem isMaxFlow_of_settled (h : Preflow N s cap excess) (hvalid : Valid N cap height)
    (hs : height s = Fintype.card V) (ht : height t = 0) (hst : t ≠ s)
    (hzero : ∀ v, v ≠ s → v ≠ t → excess v = 0) : IsMaxFlow N.between s t (excess t) := by
  obtain ⟨S, hcut, hvalue⟩ := h.exists_cut hvalid hs ht hzero
  have hgain := h.gain_flowOf hst
  rw [← hgain]
  apply isMaxFlow_of_eq (h.isFlow hzero) hcut
  rw [hgain, hvalue]

end

/-! ### The two steps -/

section

variable [DecidableEq V] [DecidableEq ι] (N : Network V ι)

/-- An amount is pushed along a half, and can be pushed back along its mate. -/
def pushCap (cap : ι → Int) (p : ι) (delta : Int) : ι → Int :=
  Function.update (Function.update cap p (cap p - delta)) (N.mate p) (cap (N.mate p) + delta)

def pushExcess (excess : V → Int) (u v : V) (delta : Int) : V → Int :=
  Function.update (Function.update excess u (excess u - delta)) v (excess v + delta)

omit [DecidableEq V] in
theorem pushCap_apply (cap : ι → Int) {p : ι} (delta : Int) (hne : N.mate p ≠ p) (q : ι) :
    pushCap N cap p delta q =
      cap q + (if q = N.mate p then delta else 0) - (if q = p then delta else 0) := by
  unfold pushCap
  by_cases hmate : q = N.mate p
  · rw [hmate, Function.update_self, if_pos rfl, if_neg hne]
    omega
  · rw [Function.update_of_ne hmate, if_neg hmate]
    by_cases hp : q = p
    · rw [hp, Function.update_self, if_pos rfl]
      omega
    · rw [Function.update_of_ne hp, if_neg hp]
      omega

omit [DecidableEq ι] in
theorem pushExcess_apply (excess : V → Int) {u v : V} (delta : Int) (hne : u ≠ v) (x : V) :
    pushExcess excess u v delta x =
      excess x + (if x = v then delta else 0) - (if x = u then delta else 0) := by
  unfold pushExcess
  by_cases hv : x = v
  · rw [hv, Function.update_self, if_pos rfl, if_neg hne.symm]
    omega
  · rw [Function.update_of_ne hv, if_neg hv]
    by_cases hu : x = u
    · rw [hu, Function.update_self, if_pos rfl]
      omega
    · rw [Function.update_of_ne hu, if_neg hu]
      omega

omit [DecidableEq V] in
theorem sum_pushCap (cap : ι → Int) {p : ι} (delta : Int) (hne : N.mate p ≠ p) (A : Finset ι) :
    ∑ q ∈ A, pushCap N cap p delta q =
      ∑ q ∈ A, cap q + (if N.mate p ∈ A then delta else 0) - (if p ∈ A then delta else 0) := by
  simp only [pushCap_apply N cap delta hne]
  rw [Finset.sum_sub_distrib, Finset.sum_add_distrib, Finset.sum_ite_eq', Finset.sum_ite_eq']

variable {N} {s : V} {cap : ι → Int} {excess : V → Int}

/-- What is pushed out of the source need not have been in excess there. -/
theorem Preflow.push (h : Preflow N s cap excess) {p : ι} (hp : p ∈ N.halves) {delta : Int}
    (hne : N.head p ≠ N.tail p) (hdelta : 0 ≤ delta) (hcap : delta ≤ cap p)
    {excess' : V → Int} (hexcess : ∀ x, x ≠ s → excess' x =
      excess x + (if x = N.head p then delta else 0) - (if x = N.tail p then delta else 0))
    (henough : N.tail p ≠ s → delta ≤ excess (N.tail p)) :
    Preflow N s (pushCap N cap p delta) excess' := by
  have hmate := Network.mate_ne hp hne
  have hmm := N.mate_mate p hp
  constructor
  · intro q hq
    have hnonneg := h.nonneg q hq
    rw [pushCap_apply N cap delta hmate]
    by_cases hqp : q = p
    · rw [hqp, if_neg hmate.symm, if_pos rfl]
      omega
    · rw [if_neg hqp]
      split <;> omega
  · intro q hq
    have hpair := h.pair q hq
    rw [pushCap_apply N cap delta hmate, pushCap_apply N cap delta hmate]
    have hforth : q = N.mate p ↔ N.mate q = p := by
      constructor
      · intro heq
        rw [heq, hmm]
      · intro heq
        rw [← heq, N.mate_mate q hq]
    have hback : N.mate q = N.mate p ↔ q = p := by
      constructor
      · intro heq
        rw [← N.mate_mate q hq, heq, hmm]
      · intro heq
        rw [heq]
    simp only [hforth, hback]
    omega
  · intro v hv
    have heq := h.excess_eq v hv
    rw [Finset.sum_sub_distrib] at heq
    rw [hexcess v hv, heq, Finset.sum_sub_distrib, sum_pushCap N cap delta hmate]
    simp only [Finset.mem_filter, hp, N.mate_mem p hp, N.tail_mate p hp, true_and]
    simp only [eq_comm]
    omega
  · intro v hv
    have hnonneg := h.excess_nonneg v hv
    rw [hexcess v hv]
    by_cases htail : v = N.tail p
    · have hle := henough (htail ▸ hv)
      rw [if_neg (htail ▸ hne.symm), if_pos htail, htail]
      omega
    · rw [if_neg htail]
      split <;> omega

omit [DecidableEq V] in
theorem Valid.push {height : V → Nat} (h : Valid N cap height) {p : ι} (hp : p ∈ N.halves)
    {delta : Int} (hdelta : 0 ≤ delta) (hne : N.mate p ≠ p)
    (hheight : height (N.tail p) = height (N.head p) + 1) :
    Valid N (pushCap N cap p delta) height := by
  intro q hq hcap
  by_cases hmate : q = N.mate p
  · rw [hmate, N.tail_mate p hp, Network.head_mate hp]
    omega
  · apply h q hq
    rw [pushCap_apply N cap delta hne, if_neg hmate] at hcap
    split at hcap <;> omega

omit [DecidableEq ι] in
theorem Valid.relabel {height : V → Nat} (h : Valid N cap height) {u : V} {k : Nat}
    (hk : ∀ p ∈ N.halves, N.tail p = u → 0 < cap p → k ≤ height (N.head p))
    (hu : height u ≤ k) : Valid N cap (Function.update height u (k + 1)) := by
  intro p hp hcap
  have hfall := h p hp hcap
  by_cases htail : N.tail p = u
  · rw [htail, Function.update_self]
    by_cases hhead : N.head p = u
    · rw [hhead, Function.update_self]
      omega
    · rw [Function.update_of_ne hhead]
      have hle := hk p hp htail hcap
      omega
  · rw [Function.update_of_ne htail]
    by_cases hhead : N.head p = u
    · rw [hhead] at hfall ⊢
      rw [Function.update_self]
      omega
    · rw [Function.update_of_ne hhead]
      exact hfall

end

/-! ### Runs -/

/-- What holds after every step; `total` bounds what the halves hold together. -/
structure Inv [Fintype V] [DecidableEq V] (N : Network V ι) (s t : V) (total : Nat)
    (cap : ι → Int) (excess : V → Int) (height : V → Nat) : Prop where
  preflow : Preflow N s cap excess
  valid : Valid N cap height
  source_height : height s = Fintype.card V
  sink_height : height t = 0
  height_lt : ∀ v, height v < 2 * Fintype.card V
  sum_cap : ∑ p ∈ N.halves, cap p ≤ total
  source_nonneg : 0 ≤ excess s
  source_le : excess s ≤ ∑ p ∈ N.halves with N.tail p = s, cap p

/-- Falls with every step: the room left for heights, and then the height of the excess. -/
def rank [Fintype V] (total : Nat) (excess : V → Int) (height : V → Nat) : Nat :=
  (2 * Fintype.card V * Fintype.card V - ∑ v, height v) *
      (Fintype.card V * (total * (2 * Fintype.card V)) + 1) +
    (∑ v, excess v * height v).toNat

section

variable [Fintype V] [DecidableEq V] {N : Network V ι} {s t : V} {total : Nat}
  {cap : ι → Int} {excess : V → Int} {height : V → Nat}

theorem Inv.excess_nonneg (h : Inv N s t total cap excess height) (v : V) : 0 ≤ excess v := by
  by_cases hv : v = s
  · rw [hv]
    exact h.source_nonneg
  · exact h.preflow.excess_nonneg v hv

omit [Fintype V] in
theorem Preflow.excess_le (h : Preflow N s cap excess)
    (hsum : ∑ p ∈ N.halves, cap p ≤ total) {v : V}
    (hsource : v = s → excess s ≤ ∑ p ∈ N.halves with N.tail p = s, cap p) :
    excess v ≤ total := by
  have hhold : excess v ≤ ∑ p ∈ N.halves with N.tail p = v, cap p := by
    by_cases hv : v = s
    · rw [hv]
      exact hsource hv
    · rw [h.excess_eq v hv]
      apply Finset.sum_le_sum
      intro p hp
      have hcapacity := N.capacity_nonneg p (Finset.mem_filter.mp hp).1
      omega
  apply (hhold.trans _).trans hsum
  apply Finset.sum_le_sum_of_subset_of_nonneg (Finset.filter_subset _ _)
  intro p hp _
  exact h.nonneg p hp

theorem Inv.excess_le (h : Inv N s t total cap excess height) (v : V) : excess v ≤ total :=
  h.preflow.excess_le h.sum_cap fun _ => h.source_le

omit [Fintype V] in
theorem Preflow.cap_le (h : Preflow N s cap excess) (hsum : ∑ p ∈ N.halves, cap p ≤ total)
    {p : ι} (hp : p ∈ N.halves) : cap p ≤ total :=
  (Finset.single_le_sum (fun q hq => h.nonneg q hq) hp).trans hsum

theorem Inv.sum_height_le (h : Inv N s t total cap excess height) :
    ∑ v, height v ≤ 2 * Fintype.card V * Fintype.card V := by
  have hle := Finset.sum_le_card_nsmul Finset.univ height (2 * Fintype.card V)
    (fun v _ => (h.height_lt v).le)
  rw [Finset.card_univ, nsmul_eq_mul, Nat.cast_id, Nat.mul_comm] at hle
  exact hle

theorem Inv.weight_le (h : Inv N s t total cap excess height) :
    (∑ v, excess v * height v).toNat ≤ Fintype.card V * (total * (2 * Fintype.card V)) := by
  have hle : ∑ v, excess v * height v ≤
      (Finset.univ : Finset V).card • ((total : Int) * ((2 * Fintype.card V : Nat) : Int)) := by
    apply Finset.sum_le_card_nsmul
    intro v _
    apply mul_le_mul (h.excess_le v)
    · exact Int.ofNat_le.mpr (h.height_lt v).le
    · exact Int.natCast_nonneg _
    · exact Int.natCast_nonneg _
  rw [Finset.card_univ, nsmul_eq_mul] at hle
  exact Int.toNat_le.mpr (by exact_mod_cast hle)

theorem Inv.weight_nonneg (h : Inv N s t total cap excess height) :
    0 ≤ ∑ v, excess v * height v := by
  apply Finset.sum_nonneg
  intro v _
  exact mul_nonneg (h.excess_nonneg v) (Int.natCast_nonneg _)

theorem sum_update_add {M : Type*} [AddCommMonoid M] (f : V → M) (v : V) (c : M) :
    ∑ x, Function.update f v c x + f v = ∑ x, f x + c := by
  rw [Finset.sum_update_of_mem (Finset.mem_univ v), ← Finset.add_sum_erase _ f (Finset.mem_univ v),
    Finset.sdiff_singleton_eq_erase]
  abel

theorem Inv.push [DecidableEq ι] (h : Inv N s t total cap excess height) {p : ι}
    (hp : p ∈ N.halves) {delta : Int} (htail : N.tail p ≠ s)
    (hheight : height (N.tail p) = height (N.head p) + 1) (hdelta : 0 ≤ delta)
    (hcap : delta ≤ cap p) (hexcess : delta ≤ excess (N.tail p)) :
    Inv N s t total (pushCap N cap p delta)
      (pushExcess excess (N.tail p) (N.head p) delta) height := by
  have hne : N.head p ≠ N.tail p := by
    intro heq
    rw [heq] at hheight
    omega
  have hmate := Network.mate_ne hp hne
  have hsource : pushExcess excess (N.tail p) (N.head p) delta s =
      excess s + (if s = N.head p then delta else 0) := by
    rw [pushExcess_apply excess delta hne.symm, if_neg htail.symm]
    omega
  constructor
  · apply h.preflow.push hp hne hdelta hcap
    · intro x _
      exact pushExcess_apply excess delta hne.symm x
    · intro _
      exact hexcess
  · exact h.valid.push hp hdelta hmate hheight
  · exact h.source_height
  · exact h.sink_height
  · exact h.height_lt
  · have hle := h.sum_cap
    rw [sum_pushCap N cap delta hmate, if_pos hp, if_pos (N.mate_mem p hp)]
    omega
  · rw [hsource]
    have hnonneg := h.source_nonneg
    split <;> omega
  · have hle := h.source_le
    have hback : N.mate p ∈ N.halves.filter (N.tail · = s) ↔ s = N.head p := by
      rw [Finset.mem_filter, N.tail_mate p hp]
      exact ⟨fun h => h.2.symm, fun h => ⟨N.mate_mem p hp, h.symm⟩⟩
    have hforth : p ∉ N.halves.filter (N.tail · = s) := fun h => htail (Finset.mem_filter.mp h).2
    rw [hsource, sum_pushCap N cap delta hmate, if_neg hforth]
    simp only [hback]
    omega

theorem rank_push [DecidableEq ι] (h : Inv N s t total cap excess height) {p : ι}
    (hp : p ∈ N.halves) {delta : Int} (htail : N.tail p ≠ s)
    (hheight : height (N.tail p) = height (N.head p) + 1) (hdelta : 0 < delta)
    (hcap : delta ≤ cap p) (hexcess : delta ≤ excess (N.tail p)) :
    rank total (pushExcess excess (N.tail p) (N.head p) delta) height <
      rank total excess height := by
  have hne : N.tail p ≠ N.head p := by
    intro heq
    rw [heq] at hheight
    omega
  have hnext := (h.push hp htail hheight hdelta.le hcap hexcess).weight_nonneg
  have hweight : ∑ v, pushExcess excess (N.tail p) (N.head p) delta v * height v =
      ∑ v, excess v * height v - delta := by
    simp only [pushExcess_apply excess delta hne, sub_mul, add_mul, ite_mul, zero_mul]
    rw [Finset.sum_sub_distrib, Finset.sum_add_distrib, Finset.sum_ite_eq', Finset.sum_ite_eq',
      if_pos (Finset.mem_univ _), if_pos (Finset.mem_univ _), hheight]
    push_cast
    ring
  unfold rank
  omega

theorem Inv.relabel (h : Inv N s t total cap excess height) {u : V} {k : Nat} (hs : u ≠ s)
    (ht : u ≠ t) (hpos : 0 < excess u)
    (hk : ∀ p ∈ N.halves, N.tail p = u → 0 < cap p → k ≤ height (N.head p))
    (hu : height u ≤ k) :
    Inv N s t total cap excess (Function.update height u (k + 1)) := by
  have hvalid := h.valid.relabel hk hu
  have hsource : Function.update height u (k + 1) s = Fintype.card V := by
    rw [Function.update_of_ne hs.symm]
    exact h.source_height
  constructor
  · exact h.preflow
  · exact hvalid
  · exact hsource
  · rw [Function.update_of_ne ht.symm]
    exact h.sink_height
  · intro v
    by_cases hv : v = u
    · have hreach := h.preflow.reaches_source hpos
      have hlt := height_lt_of_reaches hvalid hreach
      rw [hsource] at hlt
      rw [hv]
      omega
    · rw [Function.update_of_ne hv]
      exact h.height_lt v
  · exact h.sum_cap
  · exact h.source_nonneg
  · exact h.source_le

theorem rank_relabel (h : Inv N s t total cap excess height) {u : V} {k : Nat} (hs : u ≠ s)
    (ht : u ≠ t) (hpos : 0 < excess u)
    (hk : ∀ p ∈ N.halves, N.tail p = u → 0 < cap p → k ≤ height (N.head p))
    (hu : height u ≤ k) :
    rank total excess (Function.update height u (k + 1)) < rank total excess height := by
  have hnext := h.relabel hs ht hpos hk hu
  have hsum := sum_update_add height u (k + 1)
  have hroom := hnext.sum_height_le
  have hweight := hnext.weight_le
  -- the room falls by one at least, which pays for any height of the excess
  have hless : 2 * Fintype.card V * Fintype.card V -
      ∑ v, Function.update height u (k + 1) v + 1 ≤
        2 * Fintype.card V * Fintype.card V - ∑ v, height v := by
    omega
  have hmul := Nat.mul_le_mul_right (Fintype.card V * (total * (2 * Fintype.card V)) + 1) hless
  rw [Nat.add_mul, Nat.one_mul] at hmul
  unfold rank
  omega

theorem rank_le (h : Inv N s t total cap excess height) :
    rank total excess height ≤
      2 * Fintype.card V * Fintype.card V *
          (Fintype.card V * (total * (2 * Fintype.card V)) + 1) +
        Fintype.card V * (total * (2 * Fintype.card V)) :=
  Nat.add_le_add (Nat.mul_le_mul_right _ (Nat.sub_le _ _)) h.weight_le

end

end PushRelabel
