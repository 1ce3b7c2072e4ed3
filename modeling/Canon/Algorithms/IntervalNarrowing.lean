import Mathlib.Algebra.BigOperators.Fin
import Mathlib.Algebra.Order.BigOperators.Group.Finset
import Canon.Lib.ChaoticIteration

/-! # Interval narrowing

    `interval_narrowing` of `control_flow/interval_analysis.rs`: the constraints are gone
    through until a pass changes no interval, or an interval becomes empty.

    * `narrow`, `pass`, `intervalNarrowing`: the model, over `i64` intervals,
    * `narrow_narrows`: each constraint is an operator of a chaotic iteration,
    * `narrowing_spec`: what a call finds, a run of these operators,
    * `interval_narrowing_confluent`: soundness, and no dependence on the order.
-/

namespace Canon.Algorithms.IntervalNarrowing

open ChaoticIteration Relation

/-! ### Model -/

def i64Min : Int := -2 ^ 63

def i64Max : Int := 2 ^ 63 - 1

abbrev I64 := { x : Int // i64Min ≤ x ∧ x ≤ i64Max }

/-- The result of a subtraction that stops at the ends of the type. -/
def I64.saturatingSub (a : I64) (b : Int) : I64 :=
  ⟨max i64Min (min (a.1 - b) i64Max), le_max_left _ _,
    max_le (by decide) (min_le_right _ _)⟩

structure Interval where
  lo : I64
  hi : I64
  deriving DecidableEq

def Interval.isEmpty (d : Interval) : Bool := d.lo.1 > d.hi.1

def Interval.intersect (d e : Interval) : Interval := ⟨max d.lo e.lo, min d.hi e.hi⟩

inductive IntervalConstraint where
  | eq | lte | lt | subset
  deriving DecidableEq, Repr

/-- The new interval of the first variable. -/
def narrow (kind : IntervalConstraint) (di dj : Interval) : Interval :=
  match kind with
  | .eq => di.intersect dj
  | .lte => ⟨di.lo, min di.hi dj.hi⟩
  | .lt => ⟨di.lo, min di.hi (dj.hi.saturatingSub 1)⟩
  | .subset => di.intersect dj

abbrev Constraint := Nat × Nat × IntervalConstraint

variable {n : Nat}

/-- The loop over the constraints: the intervals and whether one has changed, or nothing in
    the place of that when an interval is empty. -/
def pass : List Constraint → (Fin n → Interval) → Bool → (Fin n → Interval) × Option Bool
  | [], domains, changed => (domains, some changed)
  | (i, j, kind) :: rest, domains, changed =>
    if h : i < n ∧ j < n then
      let i : Fin n := ⟨i, h.1⟩
      let j : Fin n := ⟨j, h.2⟩
      let newI := narrow kind (domains i) (domains j)
      let changed := changed || newI ≠ domains i
      let domains := Function.update domains i newI
      if (domains i).isEmpty then (domains, none) else pass rest domains changed
    else pass rest domains changed

def narrowing (constraints : List Constraint) :
    Nat → (Fin n → Interval) → Option ((Fin n → Interval) × Bool)
  | 0, _ => none
  | fuel + 1, domains =>
    match pass constraints domains false with
    | (domains, none) => some (domains, false)
    | (domains, some true) => narrowing constraints fuel domains
    | (domains, some false) => some (domains, true)

/-- How far the ends are from the ends of the type. -/
def Interval.room (d : Interval) : Nat := (i64Max - d.lo.1).toNat + (d.hi.1 - i64Min).toNat

def room (domains : Fin n → Interval) : Nat := ∑ k, (domains k).room

/-- The intervals after the call and what it returns. -/
def intervalNarrowing (domains : Fin n → Interval) (constraints : List Constraint) :
    Option ((Fin n → Interval) × Bool) :=
  narrowing constraints (room domains + 1) domains

/-! ### Meaning -/

/-- What a constraint says about the values of its variables; a subset of one value is that
    value. -/
def IntervalConstraint.Holds (kind : IntervalConstraint) (x y : Int) : Prop :=
  match kind with
  | .eq => x = y
  | .lte => x ≤ y
  | .lt => x < y
  | .subset => ({x} : Set Int) ⊆ {y}

def Interval.Contains (d : Interval) (x : Int) : Prop := d.lo.1 ≤ x ∧ x ≤ d.hi.1

def Within (values : Fin n → Int) (domains : Fin n → Interval) : Prop :=
  ∀ k, (domains k).Contains (values k)

/-- The constraints whose variables are in range hold. -/
def Satisfies (values : Fin n → Int) (constraints : List Constraint) : Prop :=
  ∀ i j : Fin n, ∀ kind, (i.1, j.1, kind) ∈ constraints → kind.Holds (values i) (values j)

/-- A narrower interval is below a wider one. -/
instance : PartialOrder Interval where
  le d e := e.lo ≤ d.lo ∧ d.hi ≤ e.hi
  le_refl d := ⟨le_rfl, le_rfl⟩
  le_trans _ _ _ h h' := ⟨h'.1.trans h.1, h.2.trans h'.2⟩
  le_antisymm d e h h' := by
    obtain ⟨lo, hi⟩ := d
    obtain ⟨lo', hi'⟩ := e
    have hlo : lo = lo' := le_antisymm h'.1 h.1
    have hhi : hi = hi' := le_antisymm h.2 h'.2
    rw [hlo, hhi]

/-- A constraint of the list with its variables in range. -/
structure InList (n : Nat) (constraints : List Constraint) where
  i : Fin n
  j : Fin n
  kind : IntervalConstraint
  mem : (i.1, j.1, kind) ∈ constraints

/-- The effect of one constraint on all intervals. -/
def narrowAt {constraints : List Constraint} (c : InList n constraints)
    (domains : Fin n → Interval) : Fin n → Interval :=
  Function.update domains c.i (narrow c.kind (domains c.i) (domains c.j))

/-! ### Single constraints -/

variable {d d' e e' : Interval} {kind : IntervalConstraint} {x y : Int}
  {domains domains' out : Fin n → Interval} {constraints constraints' : List Constraint}

theorem saturatingSub_mono {a b : I64} (h : a ≤ b) : a.saturatingSub 1 ≤ b.saturatingSub 1 := by
  have h' : a.1 ≤ b.1 := h
  show max i64Min (min (a.1 - 1) i64Max) ≤ max i64Min (min (b.1 - 1) i64Max)
  omega

theorem intersect_mono (h : d ≤ d') (h' : e ≤ e') : d.intersect e ≤ d'.intersect e' :=
  ⟨max_le_max h.1 h'.1, min_le_min h.2 h'.2⟩

theorem narrow_mono (h : d ≤ d') (h' : e ≤ e') : narrow kind d e ≤ narrow kind d' e' := by
  cases kind with
  | eq => exact intersect_mono h h'
  | lte => exact ⟨h.1, min_le_min h.2 h'.2⟩
  | lt => exact ⟨h.1, min_le_min h.2 (saturatingSub_mono h'.2)⟩
  | subset => exact intersect_mono h h'

theorem narrow_le (kind : IntervalConstraint) (d e : Interval) : narrow kind d e ≤ d := by
  cases kind with
  | eq => exact ⟨le_max_left _ _, min_le_left _ _⟩
  | lte => exact ⟨le_rfl, min_le_left _ _⟩
  | lt => exact ⟨le_rfl, min_le_left _ _⟩
  | subset => exact ⟨le_max_left _ _, min_le_left _ _⟩

theorem isEmpty_mono (h : d ≤ e) (he : e.isEmpty = true) : d.isEmpty = true := by
  have hgt : e.lo > e.hi := of_decide_eq_true he
  have hgt' : d.lo > d.hi := (h.2.trans_lt hgt).trans_le h.1
  exact decide_eq_true hgt'

/-- A value that is allowed is kept. -/
theorem contains_narrow (hx : d.Contains x) (hy : e.Contains y) (h : kind.Holds x y) :
    (narrow kind d e).Contains x := by
  have hmeet : x = y → (d.intersect e).Contains x := by
    intro hxy
    rw [← hxy] at hy
    exact ⟨max_le hx.1 hy.1, le_min hx.2 hy.2⟩
  cases kind with
  | eq => exact hmeet h
  | subset => exact hmeet (Set.singleton_subset_singleton.mp h)
  | lte => exact ⟨hx.1, le_min hx.2 (le_trans h hy.2)⟩
  | lt =>
    refine ⟨hx.1, le_min hx.2 ?_⟩
    -- The subtraction may stop at the lower end, which is no loss.
    show x ≤ max i64Min (min (e.hi.1 - 1) i64Max)
    have hxy : x < y := h
    have hye : y ≤ e.hi.1 := hy.2
    have hmax := e.hi.2.2
    omega

theorem narrow_narrows (n : Nat) (constraints : List Constraint) :
    Narrows (@narrowAt n constraints) := by
  constructor
  · intro c domains domains' h
    exact update_le_update_iff.mpr ⟨narrow_mono (h c.i) (h c.j), fun k _ => h k⟩
  · intro c domains
    exact update_le_self_iff.mpr (narrow_le _ _ _)

variable {values : Fin n → Int}

theorem within_narrowAt (hsat : Satisfies values constraints) (c : InList n constraints)
    (h : Within values domains) :
    Within values (narrowAt c domains) := by
  intro k
  by_cases hk : k = c.i
  · rw [hk, narrowAt, Function.update_self]
    exact contains_narrow (h c.i) (h c.j) (hsat c.i c.j c.kind c.mem)
  · rw [narrowAt, Function.update_of_ne hk]
    exact h k

/-- No run excludes an assignment that satisfies the constraints. -/
theorem within_of_run (hsat : Satisfies values constraints) (h : Within values domains)
    (hrun : ReflTransGen (Step (@narrowAt n constraints)) domains out) :
    Within values out := by
  induction hrun with
  | refl => exact h
  | tail _ hstep ih =>
    obtain ⟨c, rfl⟩ := hstep
    exact within_narrowAt hsat c ih

theorem room_strictMono_interval (h : d < e) : d.room < e.room := by
  obtain ⟨hle, hnot⟩ := lt_iff_le_not_ge.mp h
  have hlo : e.lo.1 ≤ d.lo.1 := hle.1
  have hhi : d.hi.1 ≤ e.hi.1 := hle.2
  have hne : ¬ (d.lo.1 ≤ e.lo.1 ∧ e.hi.1 ≤ d.hi.1) := hnot
  have hd := d.lo.2.2
  have he := d.hi.2.1
  rw [Interval.room, Interval.room]
  omega

theorem room_strictMono (h : domains < domains') : room domains < room domains' := by
  obtain ⟨hle, k, hk⟩ := Pi.lt_def.mp h
  apply Finset.sum_lt_sum
  · intro m _
    rcases (hle m).eq_or_lt with heq | hlt
    · rw [heq]
    · exact (room_strictMono_interval hlt).le
  · exact ⟨k, Finset.mem_univ k, room_strictMono_interval hk⟩

/-! ### Passes -/

theorem narrowAt_self (c : InList n constraints) (domains : Fin n → Interval) :
    narrowAt c domains c.i = narrow c.kind (domains c.i) (domains c.j) := Function.update_self ..

theorem pass_cons (c : InList n constraints) (rest : List Constraint)
    (domains : Fin n → Interval) (changed : Bool) :
    pass ((c.i.1, c.j.1, c.kind) :: rest) domains changed =
      if (narrowAt c domains c.i).isEmpty then (narrowAt c domains, none)
      else pass rest (narrowAt c domains) (changed || narrowAt c domains c.i ≠ domains c.i) := by
  rw [pass, dif_pos ⟨c.i.2, c.j.2⟩, narrowAt_self]
  show (if (narrowAt c domains c.i).isEmpty then _ else _) = _
  rw [narrowAt_self]
  rfl

/-- What a pass has done when it ends: it has applied constraints, it tells whether it has
    changed an interval, and one that has changed none has looked at every constraint. -/
structure Passed (constraints rest : List Constraint) (domains : Fin n → Interval)
    (changed : Bool) (r : (Fin n → Interval) × Option Bool) : Prop where
  run : ReflTransGen (Step (@narrowAt n constraints)) domains r.1
  stopped : r.2 = none → ∃ c : InList n constraints, (r.1 c.i).isEmpty = true
  narrowed : r.2 = some true → changed = true ∨ r.1 < domains
  settled : r.2 = some false → changed = false ∧ r.1 = domains ∧
    ∀ c : InList n rest, narrowAt c domains = domains ∧ (domains c.i).isEmpty = false

theorem pass_spec (rest : List Constraint) (hrest : ∀ c ∈ rest, c ∈ constraints) :
    ∀ (domains : Fin n → Interval) (changed : Bool),
      Passed constraints rest domains changed (pass rest domains changed) := by
  induction rest with
  | nil =>
    intro domains changed
    refine ⟨.refl, ?_, ?_, ?_⟩
    · intro h
      cases h
    · intro h
      exact .inl (Option.some.inj h)
    · intro h
      exact ⟨Option.some.inj h, rfl, fun c => absurd c.mem List.not_mem_nil⟩
  | cons head rest ih =>
    intro domains changed
    obtain ⟨i, j, kind⟩ := head
    obtain ⟨hmem, hrest⟩ := List.forall_mem_cons.mp hrest
    by_cases hrange : i < n ∧ j < n
    · let c : InList n constraints := ⟨⟨i, hrange.1⟩, ⟨j, hrange.2⟩, kind, hmem⟩
      have hstep : Step (@narrowAt n constraints) domains (narrowAt c domains) := ⟨c, rfl⟩
      have hpass := pass_cons c rest domains changed
      rw [show (i, j, kind) = (c.i.1, c.j.1, c.kind) from rfl, hpass]
      by_cases hempty : (narrowAt c domains c.i).isEmpty = true
      -- The early return.
      · rw [if_pos hempty]
        exact ⟨.single hstep, fun _ => ⟨c, hempty⟩, (fun h => nomatch h), fun h => nomatch h⟩
      · rw [if_neg hempty]
        have h := ih hrest (narrowAt c domains) (changed || narrowAt c domains c.i ≠ domains c.i)
        have hle := (narrow_narrows n constraints).le c domains
        refine ⟨.head hstep h.run, h.stopped, ?_, ?_⟩
        · intro htrue
          rcases h.narrowed htrue with hor | hlt
          · rcases (Bool.or_eq_true _ _).mp hor with hchanged | hne
            · exact .inl hchanged
            · right
              have hne' : narrowAt c domains ≠ domains := by
                intro heq
                exact of_decide_eq_true hne (congrFun heq c.i)
              exact (le_of_run (narrow_narrows n constraints) h.run).trans_lt
                (lt_of_le_of_ne hle hne')
          · exact .inr (hlt.trans_le hle)
        · intro hfalse
          obtain ⟨hor, hsame, hall⟩ := h.settled hfalse
          obtain ⟨hchanged, heq⟩ := Bool.or_eq_false_iff.mp hor
          have hi : narrowAt c domains c.i = domains c.i := not_not.mp (of_decide_eq_false heq)
          have hnone : narrowAt c domains = domains := by
            rw [narrowAt_self] at hi
            rw [narrowAt, hi, Function.update_eq_self]
          refine ⟨hchanged, hsame.trans hnone, ?_⟩
          rw [hnone] at hall hempty
          intro c'
          rcases List.mem_cons.mp c'.mem with heq' | hc'
          · have hci : c'.i = c.i := Fin.ext (Prod.mk.inj heq').1
            have hcj : c'.j = c.j := Fin.ext (Prod.mk.inj (Prod.mk.inj heq').2).1
            have hkind : c'.kind = c.kind := (Prod.mk.inj (Prod.mk.inj heq').2).2
            rw [narrowAt, hci, hcj, hkind]
            exact ⟨hnone, Bool.eq_false_iff.mpr hempty⟩
          · exact hall ⟨c'.i, c'.j, c'.kind, hc'⟩
    · rw [pass, dif_neg hrange]
      have h := ih hrest domains changed
      refine ⟨h.run, h.stopped, h.narrowed, ?_⟩
      intro hfalse
      obtain ⟨hchanged, hsame, hall⟩ := h.settled hfalse
      refine ⟨hchanged, hsame, ?_⟩
      intro c
      rcases List.mem_cons.mp c.mem with heq | hc
      · have hi : c.i.1 = i := (Prod.mk.inj heq).1
        have hj : c.j.1 = j := (Prod.mk.inj (Prod.mk.inj heq).2).1
        exact absurd ⟨hi ▸ c.i.2, hj ▸ c.j.2⟩ hrange
      · exact hall ⟨c.i, c.j, c.kind, hc⟩

/-! ### Calls -/

/-- What a call has found: a run of the constraints to an empty interval, or to a common
    fixed point without one. -/
structure Found (constraints : List Constraint) (domains out : Fin n → Interval) (ok : Bool) :
    Prop where
  run : ReflTransGen (Step (@narrowAt n constraints)) domains out
  contradiction : ok = false → ∃ c : InList n constraints, (out c.i).isEmpty = true
  fixed : ok = true → Fixed (@narrowAt n constraints) out ∧
    ∀ c : InList n constraints, (out c.i).isEmpty = false

/-- Every call ends: a pass that changes an interval leaves less room. -/
theorem narrowing_spec (constraints : List Constraint) (fuel : Nat) :
    ∀ domains : Fin n → Interval, room domains < fuel →
      ∃ out ok, narrowing constraints fuel domains = some (out, ok) ∧
        Found constraints domains out ok := by
  induction fuel with
  | zero =>
    intro domains hfuel
    omega
  | succ fuel ih =>
    intro domains hfuel
    have h := pass_spec constraints (fun _ hc => hc) domains false
    rw [narrowing]
    match hpass : pass constraints domains false with
    | (out, none) =>
      rw [hpass] at h
      exact ⟨out, false, rfl, h.run, fun _ => h.stopped rfl, fun hok => nomatch hok⟩
    | (out, some false) =>
      rw [hpass] at h
      obtain ⟨-, hsame, hall⟩ := h.settled rfl
      have hout : out = domains := hsame
      rw [← hout] at hall
      exact ⟨out, true, rfl, h.run, (fun hok => nomatch hok),
        fun _ => ⟨fun c => (hall c).1, fun c => (hall c).2⟩⟩
    | (next, some true) =>
      rw [hpass] at h
      have hlt : next < domains := (h.narrowed rfl).resolve_left (by decide)
      have hroom := room_strictMono hlt
      obtain ⟨out, ok, hrun, hfound⟩ := ih next (by omega)
      exact ⟨out, ok, hrun, h.run.trans hfound.run, hfound.contradiction, hfound.fixed⟩

theorem Found.within {ok : Bool} (h : Found constraints domains out ok)
    (hsat : Satisfies values constraints) (hin : Within values domains) : Within values out :=
  within_of_run hsat hin h.run

theorem not_contains_of_isEmpty (h : d.isEmpty = true) (x : Int) : ¬ d.Contains x := by
  have hgt : d.hi.1 < d.lo.1 := of_decide_eq_true h
  intro hx
  have hle := hx.1.trans hx.2
  omega

/-- A call that returns false has found that nothing satisfies the constraints. -/
theorem Found.unsatisfiable (h : Found constraints domains out false) (hin : Within values domains)
    : ¬ Satisfies values constraints := by
  intro hsat
  obtain ⟨c, hempty⟩ := h.contradiction rfl
  exact not_contains_of_isEmpty hempty _ (h.within hsat hin c.i)

/-- What was found does not depend on where in the list a constraint stands. -/
theorem Found.perm {ok : Bool} (hperm : constraints.Perm constraints')
    (h : Found constraints domains out ok) : Found constraints' domains out ok := by
  have hto : ∀ c : InList n constraints, (c.i.1, c.j.1, c.kind) ∈ constraints' :=
    fun c => hperm.mem_iff.mp c.mem
  have hfrom : ∀ c : InList n constraints', (c.i.1, c.j.1, c.kind) ∈ constraints :=
    fun c => hperm.mem_iff.mpr c.mem
  refine ⟨?_, ?_, ?_⟩
  · have hsteps : ∀ s t, Step (@narrowAt n constraints) s t → Step (@narrowAt n constraints') s t :=
      fun s t ⟨c, heq⟩ => ⟨⟨c.i, c.j, c.kind, hto c⟩, heq⟩
    exact ReflTransGen.mono hsteps _ _ h.run
  · intro hok
    obtain ⟨c, hempty⟩ := h.contradiction hok
    exact ⟨⟨c.i, c.j, c.kind, hto c⟩, hempty⟩
  · intro hok
    obtain ⟨hfixed, hall⟩ := h.fixed hok
    exact ⟨fun c => hfixed ⟨c.i, c.j, c.kind, hfrom c⟩,
      fun c => hall ⟨c.i, c.j, c.kind, hfrom c⟩⟩

/-- Where one call finds a fixed point, another finds no empty interval. -/
theorem Found.ok_of_ok {out' : Fin n → Interval} {ok : Bool}
    (h : Found constraints domains out true)
    (h' : Found constraints domains out' ok) : ok = true := by
  obtain ⟨hfixed, hall⟩ := h.fixed rfl
  have hbelow := fixed_le_of_runs (narrow_narrows n constraints) h.run hfixed h'.run
  by_contra hok
  obtain ⟨c, hempty⟩ := h'.contradiction (Bool.eq_false_iff.mpr hok)
  have hempty' := isEmpty_mono (hbelow c.i) hempty
  rw [hall c] at hempty'
  cases hempty'

theorem Found.unique {out' : Fin n → Interval} {ok ok' : Bool}
    (h : Found constraints domains out ok) (h' : Found constraints domains out' ok') :
    ok' = ok ∧ (ok = true → out' = out) := by
  cases ok with
  | true =>
    have hok' := h.ok_of_ok h'
    refine ⟨hok', fun _ => ?_⟩
    exact runs_agree (narrow_narrows n constraints) h'.run (h'.fixed hok').1 h.run (h.fixed rfl).1
  | false =>
    refine ⟨?_, fun hok => nomatch hok⟩
    cases ok' with
    | false => rfl
    | true => exact (h'.ok_of_ok h).symm

/-- For every vector of intervals and every list of constraints the narrowing ends.  It
    excludes no assignment that satisfies the constraints, so there is none when it returns
    false; and in every order of the constraints it returns the same, with the same intervals,
    the greatest fixed point below the given ones, when it returns true. -/
theorem interval_narrowing_confluent (domains : Fin n → Interval) (constraints : List Constraint) :
    ∃ out ok, intervalNarrowing domains constraints = some (out, ok) ∧
      (∀ values, Within values domains → Satisfies values constraints → Within values out) ∧
      (ok = false → ∀ values, Within values domains → ¬ Satisfies values constraints) ∧
      (ok = true → IsGreatest {x | Fixed (@narrowAt n constraints) x ∧ x ≤ domains} out) ∧
      ∀ constraints', constraints.Perm constraints' →
        ∃ out', intervalNarrowing domains constraints' = some (out', ok) ∧
          (ok = true → out' = out) := by
  obtain ⟨out, ok, hrun, hfound⟩ :=
    narrowing_spec constraints (room domains + 1) domains (Nat.lt_succ_self _)
  refine ⟨out, ok, hrun, fun values hin hsat => hfound.within hsat hin, ?_, ?_, ?_⟩
  · intro hok values hin
    rw [hok] at hfound
    exact hfound.unsatisfiable hin
  · intro hok
    exact isGreatest_of_run (narrow_narrows n constraints) hfound.run (hfound.fixed hok).1
  · intro constraints' hperm
    obtain ⟨out', ok', hrun', hfound'⟩ :=
      narrowing_spec constraints' (room domains + 1) domains (Nat.lt_succ_self _)
    obtain ⟨hok, hout⟩ := hfound.unique (hfound'.perm hperm.symm)
    rw [hok] at hrun'
    exact ⟨out', hrun', hout⟩

end Canon.Algorithms.IntervalNarrowing
