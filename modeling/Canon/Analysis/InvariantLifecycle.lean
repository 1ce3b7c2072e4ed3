import Canon.Lib.Machine
import Canon.Lib.Tables
import Mathlib.Data.List.Induction

/-! # The lifecycle of discovered invariants

    Supports and violations of an invariant are counted under its fingerprint; a tick then
    decides its status from the counts.  What a tick decides depends on the status of
    before, and so on the counts at every earlier tick.

    * `recordSupport`, `recordViolation`, `tick` and the run of such commands,
    * `life`, `tallies`: what happened to a fingerprint since its first support, and the
      violations counted at each tick of it,
    * `lifecycle_of_history`: the entry, and what a tick reports, read off the history.
-/

namespace Canon.Analysis.Lifecycle

variable (s : InvariantLifecycle) (fp : UInt64)

inductive InvariantStatus where
  | candidate
  | promoted
  | demoted
  | hardBanned
deriving DecidableEq

structure InvariantEntry where
  fingerprint : UInt64
  description : String
  status : InvariantStatus
  supportSamples : Nat
  violationSamples : Nat
  lastUpdatedEpoch : UInt64

/-! ### The table -/

structure InvariantLifecycle where
  entries : Table UInt64 InvariantEntry

def new : InvariantLifecycle where
  entries := .empty

def newEntry : InvariantEntry where
  fingerprint := fp
  description := ""
  status := .candidate
  supportSamples := 0
  violationSamples := 0
  lastUpdatedEpoch := 0

def recordSupport : InvariantLifecycle where
  entries := s.entries.entry fp (newEntry fp) fun e =>
    { e with supportSamples := e.supportSamples + 1 }

def recordViolation : InvariantLifecycle where
  entries := s.entries.modify fp fun e => { e with violationSamples := e.violationSamples + 1 }

/-- The status a tick gives an entry, when it changes it. -/
def nextStatus (e : InvariantEntry) : Option InvariantStatus :=
  match e.status with
  | .candidate =>
    if 6 ≤ e.violationSamples then some .hardBanned
    else if 0 < e.supportSamples ∧ e.violationSamples = 0 then some .promoted
    else none
  | .promoted =>
    if 6 ≤ e.violationSamples then some .hardBanned
    else if 0 < e.violationSamples then some .demoted
    else none
  | .demoted => if 6 ≤ e.violationSamples then some .hardBanned else none
  | .hardBanned => none

def tickEntry (epoch : UInt64) (e : InvariantEntry) : InvariantEntry :=
  { e with
    lastUpdatedEpoch := epoch
    status := (nextStatus e).getD e.status }

/-- The table after a tick, and the changes the tick reports. -/
def tick (epoch : UInt64) :
    InvariantLifecycle × List (UInt64 × InvariantStatus) :=
  ({ entries := s.entries.mapValues (tickEntry epoch) },
    s.entries.rows.filterMap fun e => (nextStatus e.2).map fun status => (e.1, status))

def promotedInvariants : List InvariantEntry :=
  (s.entries.rows.map Prod.snd).filter fun e => e.status = .promoted

/-! ### Runs -/

inductive Command where
  | support (fp : UInt64)
  | violation (fp : UInt64)
  | tick (epoch : UInt64)
deriving DecidableEq

/-- One call after the other. -/
def machine : Machine InvariantLifecycle Command where
  step s
    | .support fp => recordSupport s fp
    | .violation fp => recordViolation s fp
    | .tick epoch => (tick s epoch).1

@[simp] theorem step_support :
    machine.step s (.support fp) = recordSupport s fp := rfl

@[simp] theorem step_violation :
    machine.step s (.violation fp) = recordViolation s fp := rfl

@[simp] theorem step_tick (epoch : UInt64) :
    machine.step s (.tick epoch) = (tick s epoch).1 := rfl

/-! ### Histories -/

/-- What happened from the first support of a fingerprint on. -/
def life (history : List Command) : List Command :=
  history.dropWhile fun c => c ≠ .support fp

/-- The violations counted at each tick, when `n` were counted before. -/
def talliesFrom (fp : UInt64) : Nat → List Command → List Nat
  | _, [] => []
  | n, .support _ :: rest => talliesFrom fp n rest
  | n, .violation fp' :: rest => talliesFrom fp (if fp' = fp then n + 1 else n) rest
  | n, .tick _ :: rest => n :: talliesFrom fp n rest

def tallies (fp : UInt64) (history : List Command) : List Nat := talliesFrom fp 0 (life fp history)

/-- The status the tallies of all ticks so far amount to. -/
def verdict (tallies : List Nat) : InvariantStatus :=
  match tallies.head?, tallies.getLast? with
  | some first, some last =>
    if 6 ≤ last then .hardBanned
    else if last = 0 then .promoted
    else if first = 0 then .demoted
    else .candidate
  | _, _ => .candidate

/-- The epoch of the last tick. -/
def lastEpoch (history : List Command) : UInt64 :=
  history.foldl (fun epoch c => match c with | .tick epoch' => epoch' | _ => epoch) 0

/-- The entry a history leaves under a fingerprint. -/
def expected (history : List Command) : Option InvariantEntry :=
  if life fp history = [] then none
  else
    some
      { fingerprint := fp
        description := ""
        status := verdict (tallies fp history)
        supportSamples := (life fp history).count (.support fp)
        violationSamples := (life fp history).count (.violation fp)
        lastUpdatedEpoch := lastEpoch (life fp history) }

section History

variable (fp : UInt64) (history : List Command)

theorem life_snoc (c : Command) :
    life fp (history ++ [c]) =
      if life fp history = [] then (if c = .support fp then [c] else [])
      else life fp history ++ [c] := by
  unfold life
  rw [List.dropWhile_append]
  cases history.dropWhile fun c => decide (c ≠ .support fp) with
  | nil =>
    by_cases hc : c = .support fp
    · rw [hc]
      simp
    · simp [hc]
  | cons first rest => rfl

theorem talliesFrom_snoc (n : Nat) (c : Command) :
    talliesFrom fp n (history ++ [c]) =
      talliesFrom fp n history ++
        (match c with
        | .tick _ => [n + history.count (.violation fp)]
        | _ => []) := by
  induction history generalizing n with
  | nil => cases c <;> simp [talliesFrom]
  | cons d history ih =>
    cases d with
    | support fp' => simp [talliesFrom, ih]
    | tick epoch => simp [talliesFrom, ih]
    | violation fp' =>
      by_cases hfp : fp' = fp
      · have hcomm : n + 1 + history.count (.violation fp)
            = n + (history.count (.violation fp) + 1) := by omega
        simp [talliesFrom, ih, hfp, hcomm]
      · simp [talliesFrom, ih, hfp]

/-- No tally exceeds the violations counted in the end. -/
theorem le_of_mem_talliesFrom {n m : Nat} (h : m ∈ talliesFrom fp n history) :
    m ≤ n + history.count (.violation fp) := by
  induction history using List.reverseRecOn with
  | nil => simp [talliesFrom] at h
  | append_singleton history c ih =>
    rw [talliesFrom_snoc, List.mem_append] at h
    have hcount : history.count (.violation fp) ≤ (history ++ [c]).count (.violation fp) := by
      rw [List.count_append]
      omega
    cases h with
    | inl h =>
      have hle := ih h
      omega
    | inr h =>
      cases c with
      | support fp' => simp at h
      | violation fp' => simp at h
      | tick epoch =>
        have hm : m = n + history.count (.violation fp) := by simpa using h
        omega

/-- The tallies never fall, and the count of now is at least the last of them. -/
theorem talliesFrom_sorted (n : Nat) :
    (talliesFrom fp n history ++ [n + history.count (.violation fp)]).Pairwise (· ≤ ·) := by
  have hsnoc : ∀ l : List Nat, l.Pairwise (· ≤ ·) → ∀ m, (∀ k ∈ l, k ≤ m) →
      (l ++ [m]).Pairwise (· ≤ ·) := by
    intro l hl m hm
    rw [List.pairwise_append]
    refine ⟨hl, List.pairwise_singleton _ _, ?_⟩
    intro a ha b hb
    rw [List.mem_singleton.mp hb]
    exact hm a ha
  apply hsnoc _ _ _ (fun k hk => le_of_mem_talliesFrom fp history hk)
  induction history using List.reverseRecOn with
  | nil => exact List.Pairwise.nil
  | append_singleton history c ih =>
    rw [talliesFrom_snoc]
    cases c with
    | support fp' => simpa using ih
    | violation fp' => simpa using ih
    | tick epoch => exact hsnoc _ ih _ (fun k hk => le_of_mem_talliesFrom fp history hk)

end History

/-! ### What a tick decides -/

@[simp] theorem verdict_nil : verdict [] = .candidate := rfl

theorem verdict_cons_snoc (first : Nat) (rest : List Nat) (last : Nat) :
    verdict (first :: rest ++ [last]) =
      if 6 ≤ last then .hardBanned
      else if last = 0 then .promoted
      else if first = 0 then .demoted
      else .candidate := by
  have hlast : (first :: rest ++ [last]).getLast? = some last := List.getLast?_concat ..
  rw [verdict, hlast]
  rfl

theorem verdict_singleton (n : Nat) :
    verdict [n] = if 6 ≤ n then .hardBanned else if n = 0 then .promoted else .candidate := by
  show (if 6 ≤ n then InvariantStatus.hardBanned else if n = 0 then .promoted
    else if n = 0 then .demoted else .candidate) = _
  split
  · rfl
  · split <;> rfl

/-- One more tick: the tallies so far gave the status of before, and its own tally, which
    is no smaller, the status of after. -/
theorem nextStatus_eq {counts : List Nat} {n : Nat} {e : InvariantEntry}
    (hsorted : (counts ++ [n]).Pairwise (· ≤ ·)) (hstatus : e.status = verdict counts)
    (hviolations : e.violationSamples = n) (hsupport : 0 < e.supportSamples) :
    nextStatus e =
      if verdict (counts ++ [n]) = verdict counts then none
      else some (verdict (counts ++ [n])) := by
  rcases List.eq_nil_or_concat' counts with rfl | ⟨before, last, rfl⟩
  -- The first tick of an entry that is a candidate.
  · rw [List.nil_append, verdict_singleton]
    rw [nextStatus, hstatus, verdict_nil, hviolations]
    grind
  · have hle : last ≤ n := by
      rw [List.pairwise_append] at hsorted
      exact hsorted.2.2 last (by simp) n (by simp)
    cases before with
    | nil =>
      rw [List.nil_append, show [last] ++ [n] = last :: [] ++ [n] from rfl, verdict_cons_snoc]
      rw [nextStatus, hstatus, List.nil_append, verdict_singleton, hviolations]
      grind
    | cons first rest =>
      have hfirst : first ≤ last := by
        rw [List.append_assoc, List.cons_append, List.pairwise_cons] at hsorted
        exact hsorted.1 last (by simp)
      have hassoc : first :: rest ++ [last] ++ [n] = first :: (rest ++ [last]) ++ [n] := rfl
      rw [hassoc, verdict_cons_snoc, nextStatus, hstatus, verdict_cons_snoc, hviolations]
      clear hassoc hsorted hstatus
      by_cases hbanned : 6 ≤ last
      · have hn : 6 ≤ n := by omega
        simp [hbanned, hn]
      · by_cases hclean : last = 0
        · have hzero : first = 0 := by omega
          simp only [hclean, hzero]
          grind
        · have hn : n ≠ 0 := by omega
          by_cases hzero : first = 0
          · simp only [if_neg hbanned, if_neg hclean, hzero]
            grind
          · simp only [if_neg hbanned, if_neg hclean, if_neg hzero]
            grind

/-- A promoted invariant is one no violation of which was known at the last tick. -/
theorem verdict_eq_promoted_iff (counts : List Nat) :
    verdict counts = .promoted ↔ counts.getLast? = some 0 := by
  rcases List.eq_nil_or_concat' counts with rfl | ⟨before, last, rfl⟩
  · simp
  · cases before with
    | nil =>
      rw [List.nil_append, verdict_singleton]
      grind
    | cons first rest =>
      rw [verdict_cons_snoc, List.getLast?_concat]
      grind

/-! ### The entry a history leaves -/

theorem count_pos_of_life {fp : UInt64} {history : List Command} (h : life fp history ≠ []) :
    0 < (life fp history).count (.support fp) := by
  rw [List.count_pos_iff]
  have hhead := List.head_dropWhile_not (fun c => decide (c ≠ Command.support fp)) h
  have hfirst : (life fp history).head h = .support fp :=
    of_decide_eq_true (by simpa [life] using hhead)
  rw [← hfirst]
  exact List.head_mem h

theorem tallies_snoc_tick {fp : UInt64} {history : List Command} (epoch : UInt64)
    (h : life fp history ≠ []) :
    tallies fp (history ++ [.tick epoch]) =
      tallies fp history ++ [(life fp history).count (.violation fp)] := by
  rw [tallies, life_snoc, if_neg h, talliesFrom_snoc, Nat.zero_add]
  rfl

/-- Between ticks the status stands. -/
theorem tallies_snoc {fp : UInt64} {history : List Command} {c : Command}
    (hc : ∀ epoch, c ≠ .tick epoch) : tallies fp (history ++ [c]) = tallies fp history := by
  rw [tallies, tallies, life_snoc]
  by_cases hlife : life fp history = []
  · rw [if_pos hlife, hlife]
    split
    · rename_i hsupport
      rw [hsupport]
      rfl
    · rfl
  · rw [if_neg hlife, talliesFrom_snoc]
    cases c with
    | support fp' => simp
    | violation fp' => simp
    | tick epoch => exact absurd rfl (hc epoch)

theorem lastEpoch_snoc (history : List Command) (c : Command) :
    lastEpoch (history ++ [c]) =
      match c with
      | .tick epoch => epoch
      | _ => lastEpoch history := by
  rw [lastEpoch, List.foldl_append]
  rfl

section Steps

variable (fp : UInt64) (history : List Command)

theorem expected_support (fp' : UInt64) :
    expected fp (history ++ [.support fp']) =
      if fp = fp' then
        some
          { (expected fp history).getD (newEntry fp) with
            supportSamples := ((expected fp history).getD (newEntry fp)).supportSamples + 1 }
      else expected fp history := by
  have htallies : tallies fp (history ++ [.support fp']) = tallies fp history :=
    tallies_snoc (by simp)
  rw [expected, htallies, life_snoc]
  by_cases hfp : fp = fp'
  · subst hfp
    by_cases hlife : life fp history = []
    · have hcounts : tallies fp history = [] := by rw [tallies, hlife]; rfl
      simp [expected, hlife, newEntry, lastEpoch, hcounts]
    · simp [expected, hlife, lastEpoch_snoc]
  · have hne : fp' ≠ fp := fun h => hfp h.symm
    by_cases hlife : life fp history = []
    · simp [expected, hlife, hfp, hne]
    · simp [expected, hlife, hfp, hne, lastEpoch_snoc]

theorem expected_violation (fp' : UInt64) :
    expected fp (history ++ [.violation fp']) =
      if fp = fp' then
        (expected fp history).map fun e => { e with violationSamples := e.violationSamples + 1 }
      else expected fp history := by
  have htallies : tallies fp (history ++ [.violation fp']) = tallies fp history :=
    tallies_snoc (by simp)
  rw [expected, htallies, life_snoc]
  by_cases hlife : life fp history = []
  · simp [expected, hlife]
  · by_cases hfp : fp = fp'
    · subst hfp
      simp [expected, hlife, lastEpoch_snoc]
    · have hne : fp' ≠ fp := fun h => hfp h.symm
      simp [expected, hlife, hfp, hne, lastEpoch_snoc]

/-- What a tick makes of the entry a history left. -/
theorem nextStatus_expected {e : InvariantEntry} (he : expected fp history = some e)
    (epoch : UInt64) :
    nextStatus e =
      if verdict (tallies fp (history ++ [.tick epoch])) = verdict (tallies fp history) then none
      else some (verdict (tallies fp (history ++ [.tick epoch]))) := by
  rw [expected] at he
  split at he
  · cases he
  · rename_i hlife
    obtain rfl := Option.some.inj he
    rw [tallies_snoc_tick epoch hlife]
    apply nextStatus_eq
    · have hsorted := talliesFrom_sorted fp (life fp history) 0
      rwa [Nat.zero_add] at hsorted
    · rfl
    · rfl
    · exact count_pos_of_life hlife

theorem expected_tick (epoch : UInt64) :
    expected fp (history ++ [.tick epoch]) = (expected fp history).map (tickEntry epoch) := by
  by_cases hlife : life fp history = []
  · simp [expected, life_snoc, hlife]
  · obtain ⟨e, he⟩ : ∃ e, expected fp history = some e := by simp [expected, hlife]
    have hnext := nextStatus_expected fp history he epoch
    have hstatus : (nextStatus e).getD e.status
        = verdict (tallies fp (history ++ [.tick epoch])) := by
      have hbefore : e.status = verdict (tallies fp history) := by
        rw [expected, if_neg hlife] at he
        rw [← Option.some.inj he]
      rw [hnext, hbefore]
      split
      · rename_i hsame
        exact hsame.symm
      · rfl
    rw [he, Option.map_some, tickEntry, hstatus]
    rw [expected, if_neg hlife] at he
    rw [← Option.some.inj he, expected, life_snoc, if_neg hlife]
    simp [lastEpoch_snoc]

end Steps

theorem get_run (history : List Command) (fp : UInt64) :
    (machine.run new history).entries.get fp = expected fp history := by
  induction history using List.reverseRecOn with
  | nil => rfl
  | append_singleton history c ih =>
    rw [Machine.run_snoc]
    cases c with
    | support fp' =>
      rw [step_support, recordSupport, Table.get_entry, expected_support, ih]
      by_cases hfp : fp = fp'
      · subst hfp
        rw [if_pos rfl, if_pos rfl, ih]
      · rw [if_neg hfp, if_neg hfp]
    | violation fp' =>
      rw [step_violation, recordViolation, Table.get_modify, expected_violation, ih]
    | tick epoch => rw [step_tick, tick, Table.get_mapValues, expected_tick, ih]

theorem mem_changes_iff (s : InvariantLifecycle) (epoch fp : UInt64) (status : InvariantStatus) :
    (fp, status) ∈ (tick s epoch).2 ↔
      ∃ e, s.entries.get fp = some e ∧ nextStatus e = some status := by
  rw [tick, List.mem_filterMap]
  constructor
  · intro h
    obtain ⟨row, hrow, hchange⟩ := h
    obtain ⟨status', hnext, heq⟩ := Option.map_eq_some_iff.mp hchange
    obtain ⟨hfp, hstatus⟩ := Prod.mk.inj heq
    refine ⟨row.2, ?_, by rw [hnext, hstatus]⟩
    rw [← hfp]
    exact Table.mem_rows_iff.mp hrow
  · intro h
    obtain ⟨e, hget, hnext⟩ := h
    exact ⟨(fp, e), Table.mem_rows_iff.mpr hget, by rw [hnext]; rfl⟩

theorem mem_promotedInvariants_iff (s : InvariantLifecycle) (e : InvariantEntry) :
    e ∈ promotedInvariants s ↔ ∃ fp, s.entries.get fp = some e ∧ e.status = .promoted := by
  rw [promotedInvariants, List.mem_filter, List.mem_map, decide_eq_true_iff]
  constructor
  · intro h
    obtain ⟨row, hrow, rfl⟩ := h.1
    exact ⟨row.1, Table.mem_rows_iff.mp hrow, h.2⟩
  · intro h
    obtain ⟨fp, hget, hstatus⟩ := h
    exact ⟨⟨(fp, e), Table.mem_rows_iff.mpr hget, rfl⟩, hstatus⟩

/-- Over every run: the entry of every fingerprint, what the next tick reports of it, and
    which invariants count as promoted, all as the history says. -/
theorem lifecycle_of_history (history : List Command) :
    (∀ fp, (machine.run new history).entries.get fp = expected fp history) ∧
      (∀ fp epoch status, (fp, status) ∈ (tick (machine.run new history) epoch).2 ↔
        life fp history ≠ [] ∧ verdict (tallies fp (history ++ [.tick epoch])) = status ∧
          verdict (tallies fp history) ≠ status) ∧
      ∀ e, e ∈ promotedInvariants (machine.run new history) ↔
        ∃ fp, expected fp history = some e ∧ (tallies fp history).getLast? = some 0 := by
  refine ⟨get_run history, ?_, ?_⟩
  · intro fp epoch status
    rw [mem_changes_iff, get_run]
    constructor
    · intro h
      obtain ⟨e, he, hnext⟩ := h
      have hlife : life fp history ≠ [] := by
        intro hnil
        rw [expected, if_pos hnil] at he
        cases he
      rw [nextStatus_expected fp history he epoch] at hnext
      split at hnext
      · cases hnext
      · rename_i hchanged
        have hstatus := Option.some.inj hnext
        exact ⟨hlife, hstatus, fun h => hchanged (hstatus.trans h.symm)⟩
    · intro h
      obtain ⟨hlife, hafter, hbefore⟩ := h
      obtain ⟨e, he⟩ : ∃ e, expected fp history = some e := by simp [expected, hlife]
      refine ⟨e, he, ?_⟩
      rw [nextStatus_expected fp history he epoch, hafter, if_neg fun h => hbefore h.symm]
  · intro e
    rw [mem_promotedInvariants_iff]
    apply exists_congr
    intro fp
    rw [get_run]
    apply and_congr_right
    intro he
    have hstatus : e.status = verdict (tallies fp history) := by
      rw [expected] at he
      split at he
      · cases he
      · rw [← Option.some.inj he]
    rw [hstatus, verdict_eq_promoted_iff]

end Canon.Analysis.Lifecycle
