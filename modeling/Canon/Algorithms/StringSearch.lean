import Mathlib.Algebra.GroupWithZero.Nat
import Mathlib.Data.List.Induction
import Canon.Lib.Borders

/-! # String search

    `kmp_search` and `rabin_karp` of `string_algorithms`, on the bytes of their arguments.

    * `lpsLoop`, `searchLoop`, `kmpSearch`: the table of the longest borders and the scan,
    * `hashLoop`, `rollLoop`, `rabinKarp`: the rolling hash, with the limits of `u64`,
    * `occurrences`: where the pattern fits and occurs,
    * `kmpSearch_eq`, `rabinKarp_eq`: both find the occurrences.
-/

namespace Canon.Algorithms.StringSearch

open Canon.Lib.Borders

abbrev Bytes := List UInt8

/-! ### Model of `kmp_search` -/

/-- The inner loop: shorter borders until one is continued by the byte.  Nothing for an index
    out of bounds, and when the fuel is spent. -/
def fallback (p : Bytes) (lps : List Nat) (c : UInt8) : Nat → Nat → Option Nat
  | 0, _ => none
  | fuel + 1, len =>
    if len = 0 then some 0
    else do
      let x ← p[len]?
      if c ≠ x then do
        let next ← lps[len - 1]?
        fallback p lps c fuel next
      else some len

/-- The loop over the positions of the pattern from `i` on. -/
def lpsLoop (p : Bytes) : Nat → Nat → Nat → List Nat → Option (List Nat)
  | 0, _, _, lps => some lps
  | count + 1, i, len, lps => do
    let c ← p[i]?
    let len ← fallback p lps c (len + 1) len
    let x ← p[len]?
    if c = x then lpsLoop p count (i + 1) (len + 1) (lps.set i (len + 1))
    else lpsLoop p count (i + 1) len lps

def searchLoop (t p : Bytes) (lps : List Nat) : Nat → Nat → Nat → List Nat → Option (List Nat)
  | 0, _, _, _ => none
  | fuel + 1, i, j, res =>
    if i < t.length then do
      let x ← t[i]?
      let y ← p[j]?
      if x = y then
        if j + 1 = p.length then
          if j + 1 ≤ i + 1 then do
            let next ← lps[j]?
            searchLoop t p lps fuel (i + 1) next (res ++ [i + 1 - (j + 1)])
          else none
        else searchLoop t p lps fuel (i + 1) (j + 1) res
      else if 0 < j then do
        let next ← lps[j - 1]?
        searchLoop t p lps fuel i next res
      else searchLoop t p lps fuel (i + 1) j res
    else some res

def kmpSearch (t p : Bytes) : Option (List Nat) :=
  if p.isEmpty then some []
  else do
    let lps ← lpsLoop p (p.length - 1) 1 0 (List.replicate p.length 0)
    searchLoop t p lps (2 * t.length + 1) 0 0 []

/-! ### Model of `rabin_karp` -/

def base : Nat := 256

def modulus : Nat := 1000000007

/-- The value of an operation on `u64`; nothing where it overflows. -/
def checked (n : Nat) : Option Nat := if n < 2 ^ 64 then some n else none

/-- The difference of two `u64`; nothing where it is negative. -/
def checkedSub (a b : Nat) : Option Nat := if b ≤ a then some (a - b) else none

/-- One more byte in a hash. -/
def extendHash (hash : Nat) (c : UInt8) : Option Nat := do
  let shifted ← checked (hash * base)
  let sum ← checked (shifted + c.toNat)
  pure (sum % modulus)

/-- The first loop, over the first `m` positions of both: the two hashes and the power. -/
def hashLoop (t p : Bytes) : Nat → Nat → Nat × Nat × Nat → Option (Nat × Nat × Nat)
  | 0, _, hashes => some hashes
  | count + 1, i, (hashP, hashT, power) => do
    let x ← p[i]?
    let hashP ← extendHash hashP x
    let y ← t[i]?
    let hashT ← extendHash hashT y
    let power ←
      if i < p.length - 1 then (checked (power * base)).map (· % modulus) else some power
    hashLoop t p count (i + 1) (hashP, hashT, power)

/-- The hash of the next window. -/
def roll (hash power : Nat) (first next : UInt8) : Option Nat := do
  let product ← checked (first.toNat * power)
  let sum ← checked (modulus + hash)
  let difference ← checkedSub sum (product % modulus)
  extendHash (difference % modulus) next

/-- The second loop, over the windows from `i` on. -/
def rollLoop (t p : Bytes) (hashP power : Nat) : Nat → Nat → Nat → List Nat → Option (List Nat)
  | 0, _, _, result => some result
  | count + 1, i, hashT, result => do
    let result :=
      if hashP = hashT ∧ (t.drop i).take p.length = p then result ++ [i] else result
    if i < t.length - p.length then do
      let first ← t[i]?
      let next ← t[i + p.length]?
      let hashT ← roll hashT power first next
      rollLoop t p hashP power count (i + 1) hashT result
    else rollLoop t p hashP power count (i + 1) hashT result

def rabinKarp (t p : Bytes) : Option (List Nat) :=
  let n := t.length
  let m := p.length
  if m = 0 ∨ m > n then some []
  else do
    let (hashP, hashT, power) ← hashLoop t p m 0 (0, 0, 1)
    rollLoop t p hashP power (n - m + 1) 0 hashT []

/-! ### Occurrences -/

/-- The occurrences that end before position `i`. -/
def found (t p : Bytes) (i : Nat) : List Nat :=
  (List.range (i + 1 - p.length)).filter fun s => OccursAt t p s

def occurrences (t p : Bytes) : List Nat := found t p t.length

theorem mem_occurrences {t p : Bytes} (hp : p ≠ []) {s : Nat} :
    s ∈ occurrences t p ↔ p <+: t.drop s := by
  rw [occurrences, found, List.mem_filter, List.mem_range, decide_eq_true_iff,
    ← occursAt_iff_prefix]
  constructor
  · exact fun h => h.2
  · intro h
    refine ⟨?_, h⟩
    have hlength := congrArg List.length h
    have hpos := List.length_pos_of_ne_nil hp
    rw [List.length_take, List.length_drop] at hlength
    omega

theorem occurrences_ascending (t p : Bytes) : (occurrences t p).Pairwise (· < ·) :=
  List.pairwise_lt_range.filter _

/-- One position further, the occurrence that ends there is added. -/
theorem found_succ {t p : Bytes} {i s : Nat} (hs : s + p.length = i + 1) :
    found t p (i + 1) = found t p i ++ if OccursAt t p s then [s] else [] := by
  have hnext : i + 1 + 1 - p.length = s + 1 := by omega
  have hthis : i + 1 - p.length = s := by omega
  rw [found, hnext, List.range_succ, List.filter_append, found, hthis, List.filter_cons,
    List.filter_nil]
  by_cases h : OccursAt t p s
  · simp [h]
  · simp [h]

theorem found_of_short {t p : Bytes} {i : Nat} (hi : i < p.length) : found t p i = [] := by
  rw [found, show i + 1 - p.length = 0 by omega]
  rfl

/-! ### The table -/

section Kmp

variable {t p : Bytes} {lps : List Nat} {c : UInt8} {i j len : Nat}

/-- The first entries of the table are the longest borders. -/
def Table (p : Bytes) (lps : List Nat) (count : Nat) : Prop :=
  ∀ q, 1 ≤ q → q ≤ count → ∃ v, lps[q - 1]? = some v ∧ IsFailure p q v

/-- The inner loop ends at the longest overlap that the byte continues, or at none. -/
theorem fallback_spec {w : Bytes} {bound count : Nat} (htable : Table p lps count)
    (fuel : Nat) : ∀ {len : Nat}, len < fuel → len ≤ count → len < p.length →
      Overlap p w len → (∀ k, Candidate p w bound c k → k ≤ len) →
      ∃ len', fallback p lps c fuel len = some len' ∧ len' ≤ len ∧ Overlap p w len' ∧
        (∀ k, Candidate p w bound c k → k ≤ len') ∧ (len' = 0 ∨ p[len']? = some c) := by
  induction fuel with
  | zero =>
    intro len hfuel
    omega
  | succ fuel ih =>
    intro len hfuel hcount hlt hover hmax
    rw [fallback]
    by_cases hzero : len = 0
    · rw [if_pos hzero]
      exact ⟨0, rfl, Nat.zero_le len, overlap_zero, hzero ▸ hmax, .inl rfl⟩
    · rw [if_neg hzero, List.getElem?_eq_getElem hlt, Option.bind_eq_bind, Option.bind_some]
      by_cases hc : c = p[len]
      · rw [if_neg (not_not_intro hc)]
        refine ⟨len, rfl, Nat.le_refl len, hover, hmax, .inr ?_⟩
        rw [List.getElem?_eq_getElem hlt, hc]
      · rw [if_pos hc]
        obtain ⟨v, hv, hfail⟩ := htable len (by omega) hcount
        have hvlt := hfail.1
        have hne : p[len]? ≠ some c := by
          rw [List.getElem?_eq_getElem hlt]
          exact fun heq => hc (Option.some.inj heq).symm
        obtain ⟨len', hrun, hle, hspec⟩ := ih (show v < fuel by omega) (by omega) (by omega)
          (hover.failure hfail) fun k hk => hk.le_failure hover hfail hmax hne
        refine ⟨len', ?_, by omega, hspec⟩
        rw [hv]
        exact hrun

/-- The next entry of the table, from what the inner loop found. -/
theorem isFailure_succ {v : Nat} (hi : 1 ≤ i) (hc : p[i]? = some c) (hv : Overlap p (p.take i) v)
    (hvlt : v < i) (hmax : ∀ k, Candidate p (p.take i) i c k → k ≤ v)
    (hend : v = 0 ∨ p[v]? = some c) :
    (p[v]? = some c → IsFailure p (i + 1) (v + 1)) ∧
      (p[v]? ≠ some c → v = 0 ∧ IsFailure p (i + 1) 0) := by
  have hborder : ∀ {k}, k < i + 1 → Overlap p (p.take (i + 1)) k →
      k = 0 ∨ ∃ k', k = k' + 1 ∧ Candidate p (p.take i) i c k' := by
    intro k hk hover
    match k with
    | 0 => exact .inl rfl
    | k + 1 =>
      rw [take_succ_of_get hc, overlap_concat] at hover
      exact .inr ⟨k, rfl, by omega, hover⟩
  constructor
  · intro hcont
    refine ⟨by omega, ?_, ?_⟩
    · rw [take_succ_of_get hc]
      exact overlap_concat.mpr ⟨hv, hcont⟩
    · intro k hk hover
      rcases hborder hk hover with hzero | ⟨k', rfl, hcand⟩
      · omega
      · have := hmax k' hcand
        omega
  · intro hcont
    refine ⟨hend.resolve_right hcont, by omega, overlap_zero, ?_⟩
    intro k hk hover
    rcases hborder hk hover with hzero | ⟨k', rfl, hcand⟩
    · omega
    · have hle := hmax k' hcand
      rw [hend.resolve_right hcont, Nat.le_zero] at hle
      have hget := hcand.2.2
      rw [hle, ← hend.resolve_right hcont] at hget
      exact absurd hget hcont

theorem Table.set {v count : Nat} (htable : Table p lps count) (hlt : count < lps.length)
    (hv : IsFailure p (count + 1) v) : Table p (lps.set count v) (count + 1) := by
  intro q hq hle
  by_cases heq : q = count + 1
  · rw [heq, Nat.add_sub_cancel, List.getElem?_set_self hlt]
    exact ⟨v, rfl, hv⟩
  · rw [List.getElem?_set_ne (by omega)]
    exact htable q hq (by omega)

/-- The entries that are not written are the zeros of the start. -/
theorem lpsLoop_spec (count : Nat) : ∀ {i len : Nat} {lps : List Nat}, 1 ≤ i →
    i + count = p.length → lps.length = p.length → Table p lps i → IsFailure p i len →
    (∀ q, i ≤ q → q < p.length → lps[q]? = some 0) →
    ∃ lps', lpsLoop p count i len lps = some lps' ∧ Table p lps' p.length := by
  induction count with
  | zero =>
    intro i len lps _ hcount _ htable _ _
    rw [Nat.add_zero] at hcount
    exact ⟨lps, rfl, hcount ▸ htable⟩
  | succ count ih =>
    intro i len lps hi hcount hlength htable hfail hzeros
    have hc : p[i]? = some p[i] := List.getElem?_eq_getElem (by omega)
    obtain ⟨v, hrun, hle, hover, hmax, hend⟩ := fallback_spec htable (c := p[i]) (len + 1)
      (Nat.lt_succ_self len) (Nat.le_of_lt hfail.1) (by have := hfail.1; omega) hfail.2.1
      (fun k (hk : Candidate p (p.take i) i p[i] k) => hfail.2.2 k hk.1 hk.2.1)
    have hvlt : v < i := by
      have := hfail.1
      omega
    obtain ⟨hcont, hstop⟩ := isFailure_succ hi hc hover hvlt hmax hend
    have hx : p[v]? = some p[v] := List.getElem?_eq_getElem (by omega)
    rw [lpsLoop, hc, Option.bind_eq_bind, Option.bind_some, hrun, Option.bind_eq_bind,
      Option.bind_some, hx, Option.bind_some]
    by_cases heq : p[i] = p[v]
    · rw [if_pos heq]
      have hnew := hcont (by rw [hx, heq])
      apply ih (by omega) (by omega) (by rw [List.length_set, hlength])
        (htable.set (by omega) hnew) hnew
      intro q hq hlt
      rw [List.getElem?_set_ne (by omega)]
      exact hzeros q (by omega) hlt
    · rw [if_neg heq]
      obtain ⟨hzero, hnew⟩ := hstop fun hget => heq
        (Option.some.inj (hx.symm.trans hget)).symm
      rw [hzero]
      have hsame : lps.set i 0 = lps := by
        have hget := hzeros i (Nat.le_refl i) (by omega)
        obtain ⟨hlt, hentry⟩ := List.getElem?_eq_some_iff.mp hget
        rw [← hentry, List.set_getElem_self]
      have htable' := htable.set (show i < lps.length by omega) hnew
      rw [hsame] at htable'
      exact ih (by omega) (by omega) hlength htable' hnew fun q hq hlt =>
        hzeros q (by omega) hlt

/-! ### The scan -/

theorem candidate_of_overlap {bound k : Nat} (hc : t[i]? = some c) (hk : k < bound)
    (h : Overlap p (t.take (i + 1)) (k + 1)) : Candidate p (t.take i) bound c k := by
  rw [take_succ_of_get hc] at h
  exact ⟨hk, overlap_concat.mp h⟩

theorem found_same (hi : i < t.length) (hno : ¬ Overlap p (t.take (i + 1)) p.length) :
    found t p (i + 1) = found t p i := by
  by_cases hshort : i + 1 < p.length
  · rw [found_of_short hshort, found_of_short (by omega)]
  · have hs : i + 1 - p.length + p.length = i + 1 := by omega
    have hmiss : ¬ OccursAt t p (i + 1 - p.length) :=
      fun h => hno ((occursAt_iff_overlap hs hi).mp h)
    rw [found_succ hs, if_neg hmiss, List.append_nil]

theorem found_match (hi : i < t.length) (h : Overlap p (t.take (i + 1)) p.length) :
    found t p (i + 1) = found t p i ++ [i + 1 - p.length] := by
  have hle := h.le_length
  rw [List.length_take] at hle
  have hs : i + 1 - p.length + p.length = i + 1 := by omega
  rw [found_succ hs, if_pos ((occursAt_iff_overlap hs hi).mpr h)]

theorem searchLoop_spec (htable : Table p lps p.length) (fuel : Nat) :
    ∀ {i j : Nat}, i ≤ t.length → j < p.length → Overlap p (t.take i) j →
      (∀ c, t[i]? = some c → ∀ k, Candidate p (t.take i) p.length c k → k ≤ j) →
      2 * (t.length - i) + j < fuel →
      searchLoop t p lps fuel i j (found t p i) = some (occurrences t p) := by
  induction fuel with
  | zero =>
    intro i j _ _ _ _ hfuel
    omega
  | succ fuel ih =>
    intro i j hi hj hover hmax hfuel
    rw [searchLoop]
    by_cases hend : i < t.length
    · have hx : t[i]? = some t[i] := List.getElem?_eq_getElem hend
      have hy : p[j]? = some p[j] := List.getElem?_eq_getElem hj
      have hcand := hmax t[i] hx
      rw [if_pos hend, hx, Option.bind_eq_bind, Option.bind_some, hy, Option.bind_some]
      by_cases heq : t[i] = p[j]
      -- The byte continues the overlap.
      · rw [if_pos heq]
        have hnext : Overlap p (t.take (i + 1)) (j + 1) := by
          rw [take_succ_of_get hx, overlap_concat, heq]
          exact ⟨hover, hy⟩
        by_cases hfull : j + 1 = p.length
        · have hle := hnext.le_length
          rw [List.length_take] at hle
          obtain ⟨v, hv, hfail⟩ := htable p.length (by omega) (Nat.le_refl _)
          rw [hfull] at hnext
          have hvj : lps[j]? = some v := by
            rw [← hv, ← hfull, Nat.add_sub_cancel]
          rw [if_pos hfull, if_pos (by omega), hvj, Option.bind_eq_bind, Option.bind_some, hfull,
            ← found_match hend hnext]
          have hvlt := hfail.1
          apply ih (by omega) hvlt (hnext.failure hfail) _ (by omega)
          intro c _ k hk
          exact hfail.2.2 k hk.1 ((hnext.iff_take (Nat.le_of_lt hk.1)).mp hk.2.1)
        · have hmiss : ¬ Overlap p (t.take (i + 1)) p.length := by
            intro hwhole
            rw [show p.length = p.length - 1 + 1 by omega] at hwhole
            have hle := hcand _ (candidate_of_overlap hx (by omega) hwhole)
            omega
          rw [if_neg hfull, ← found_same hend hmiss]
          apply ih (by omega) (by omega) hnext _ (by omega)
          intro c _ k hk
          match k with
          | 0 => omega
          | k + 1 =>
            have hle := hcand k (candidate_of_overlap hx (by have := hk.1; omega) hk.2.1)
            omega
      · rw [if_neg heq]
        have hne : p[j]? ≠ some t[i] := by
          rw [hy]
          exact fun hsame => heq (Option.some.inj hsame).symm
        by_cases hpos : 0 < j
        -- The next shorter overlap is tried with the same byte.
        · rw [if_pos hpos]
          obtain ⟨v, hv, hfail⟩ := htable j (by omega) (by omega)
          have hvlt := hfail.1
          rw [hv, Option.bind_eq_bind, Option.bind_some]
          apply ih hi (by omega) (hover.failure hfail) _ (by omega)
          intro c hc k hk
          rw [Option.some.inj (hx.symm.trans hc)] at hne
          exact hk.le_failure hover hfail (hmax c hc) hne
        -- No overlap is continued.
        · rw [if_neg hpos]
          have hnone : ∀ k, ¬ Candidate p (t.take i) p.length t[i] k := by
            intro k hk
            have hle := hcand k hk
            have hzero : k = j := by omega
            exact hne (hzero ▸ hk.2.2)
          have hmiss : ¬ Overlap p (t.take (i + 1)) p.length := by
            intro hwhole
            rw [show p.length = p.length - 1 + 1 by omega] at hwhole
            exact hnone _ (candidate_of_overlap hx (by omega) hwhole)
          rw [← found_same hend hmiss, show j = 0 by omega]
          apply ih (by omega) (by omega) overlap_zero _ (by omega)
          intro c _ k hk
          match k with
          | 0 => omega
          | k + 1 =>
            exact absurd (candidate_of_overlap hx (by have := hk.1; omega) hk.2.1) (hnone k)
    · rw [if_neg hend, show i = t.length by omega]
      rfl

end Kmp

theorem kmpSearch_eq {t p : Bytes} (hp : p ≠ []) : kmpSearch t p = some (occurrences t p) := by
  have hpos := List.length_pos_of_ne_nil hp
  have hempty : p.isEmpty = false := List.isEmpty_eq_false_iff.mpr hp
  have hfirst : IsFailure p 1 0 := by
    refine ⟨Nat.zero_lt_one, overlap_zero, ?_⟩
    intro k hk _
    omega
  have hzeros : ∀ q, q < p.length → (List.replicate p.length 0)[q]? = some 0 := by
    intro q hq
    rw [List.getElem?_replicate, if_pos hq]
  have hone : Table p (List.replicate p.length 0) 1 := by
    intro q hq hle
    have hq1 : q = 1 := by omega
    rw [hq1]
    exact ⟨0, hzeros 0 hpos, hfirst⟩
  obtain ⟨lps, hlps, htable⟩ := lpsLoop_spec (p.length - 1) (Nat.le_refl 1) (by omega)
    List.length_replicate hone hfirst fun q _ hq => hzeros q hq
  have hscan := searchLoop_spec (t := t) htable (2 * t.length + 1) (Nat.zero_le _) hpos
    overlap_zero (by
      intro c _ k hk
      have hle := hk.2.1.le_length
      rw [List.take_zero, List.length_nil] at hle
      exact hle) (by omega)
  rw [found_of_short hpos] at hscan
  rw [kmpSearch, hempty, if_neg Bool.false_ne_true, hlps, Option.bind_eq_bind, Option.bind_some]
  exact hscan

/-! ### The rolling hash -/

section RabinKarp

variable {t p w : Bytes} {c : UInt8} {i hash : Nat}

/-- The number that the bytes are the digits of. -/
def valueOf (w : Bytes) : Nat := w.foldl (fun value c => value * base + c.toNat) 0

theorem valueOf_concat (w : Bytes) (c : UInt8) :
    valueOf (w ++ [c]) = valueOf w * base + c.toNat := by
  unfold valueOf
  rw [List.foldl_append]
  rfl

theorem valueOf_cons (c : UInt8) (w : Bytes) :
    valueOf (c :: w) = c.toNat * base ^ w.length + valueOf w := by
  induction w using List.reverseRecOn with
  | nil =>
    show 0 * base + c.toNat = c.toNat * 1 + 0
    omega
  | append_singleton w d ih =>
    rw [← List.cons_append, valueOf_concat, valueOf_concat, ih, List.length_append,
      List.length_singleton, Nat.pow_succ, Nat.add_mul, Nat.mul_assoc, Nat.add_assoc]

theorem checked_eq {n : Nat} (h : n < 2 ^ 64) : checked n = some n := if_pos h

theorem extendHash_eq (w : Bytes) (c : UInt8) :
    extendHash (valueOf w % modulus) c = some (valueOf (w ++ [c]) % modulus) := by
  have hlt : valueOf w % modulus < 1000000007 := Nat.mod_lt _ (by decide)
  have hc := c.toNat_lt
  rw [extendHash, checked_eq (by unfold base; omega), Option.bind_eq_bind, Option.bind_some,
    checked_eq (by unfold base; omega), Option.bind_some, valueOf_concat, Nat.add_mod,
    Nat.mod_mul_mod, ← Nat.add_mod]
  rfl

theorem hashLoop_spec (hle : p.length ≤ t.length) (count : Nat) :
    ∀ {i : Nat}, i + count = p.length →
      hashLoop t p count i (valueOf (p.take i) % modulus, valueOf (t.take i) % modulus,
        base ^ min i (p.length - 1) % modulus) =
      some (valueOf p % modulus, valueOf (t.take p.length) % modulus,
        base ^ (p.length - 1) % modulus) := by
  induction count with
  | zero =>
    intro i hi
    rw [Nat.add_zero] at hi
    rw [hi, List.take_length, show min p.length (p.length - 1) = p.length - 1 by omega]
    rfl
  | succ count ih =>
    intro i hi
    have hx : p[i]? = some p[i] := List.getElem?_eq_getElem (by omega)
    have hy : t[i]? = some t[i] := List.getElem?_eq_getElem (by omega)
    rw [hashLoop, hx]
    simp only [Option.bind_eq_bind, Option.bind_some, hy, extendHash_eq]
    rw [← take_succ_of_get hx, ← take_succ_of_get hy]
    by_cases hlast : i < p.length - 1
    · have hlt : base ^ i % modulus < 1000000007 := Nat.mod_lt _ (by decide)
      rw [if_pos hlast, show min i (p.length - 1) = i by omega,
        checked_eq (by unfold base at hlt ⊢; omega), Option.map_some, Option.bind_some,
        Nat.mod_mul_mod, ← Nat.pow_succ]
      have hnext := ih (show i + 1 + count = p.length by omega)
      rw [show min (i + 1) (p.length - 1) = i + 1 by omega] at hnext
      exact hnext
    · rw [if_neg hlast]
      have hnext := ih (show i + 1 + count = p.length by omega)
      rw [show min (i + 1) (p.length - 1) = min i (p.length - 1) by omega] at hnext
      exact hnext

/-- The hash of the next window: what the first byte contributed is taken away, with the
    modulus added before, so that nothing is negative. -/
theorem roll_eq (first next : UInt8) (rest : Bytes) :
    roll (valueOf (first :: rest) % modulus) (base ^ rest.length % modulus) first next =
      some (valueOf (rest ++ [next]) % modulus) := by
  have hpower : base ^ rest.length % modulus < 1000000007 := Nat.mod_lt _ (by decide)
  have hproduct : first.toNat * (base ^ rest.length % modulus) < 256 * 1000000007 := by
    have hfirst := first.toNat_lt
    calc first.toNat * (base ^ rest.length % modulus)
        ≤ 256 * (base ^ rest.length % modulus) := Nat.mul_le_mul_right _ (by omega)
      _ < 256 * 1000000007 := by omega
  have hhash : valueOf (first :: rest) % modulus < 1000000007 := Nat.mod_lt _ (by decide)
  have hdifference : (modulus + valueOf (first :: rest) % modulus -
      first.toNat * (base ^ rest.length % modulus) % modulus) % modulus =
        valueOf rest % modulus := by
    rw [Nat.mul_mod_mod, valueOf_cons]
    unfold modulus
    omega
  have hless : first.toNat * (base ^ rest.length % modulus) % modulus < modulus :=
    Nat.mod_lt _ (by decide)
  rw [roll, checked_eq (by omega), Option.bind_eq_bind, Option.bind_some,
    checked_eq (by unfold modulus at hhash ⊢; omega), Option.bind_some, checkedSub,
    if_pos (by omega), Option.bind_some, hdifference, extendHash_eq]

def window (t : Bytes) (m i : Nat) : Bytes := (t.drop i).take m

theorem rollLoop_spec (hp : 0 < p.length) (hle : p.length ≤ t.length) (count : Nat) :
    ∀ {i hashT : Nat}, i + count = t.length - p.length + 1 →
      (0 < count → hashT = valueOf (window t p.length i) % modulus) →
      rollLoop t p (valueOf p % modulus) (base ^ (p.length - 1) % modulus) count i hashT
        ((List.range i).filter fun s => OccursAt t p s) = some (occurrences t p) := by
  induction count with
  | zero =>
    intro i hashT hi _
    rw [rollLoop, occurrences, found, show i = t.length + 1 - p.length by omega]
  | succ count ih =>
    intro i hashT hi hhash
    have hhashT := hhash (Nat.succ_pos count)
    have hresult : (if valueOf p % modulus = hashT ∧ (t.drop i).take p.length = p then
          ((List.range i).filter fun s => OccursAt t p s) ++ [i]
        else (List.range i).filter fun s => OccursAt t p s) =
        (List.range (i + 1)).filter fun s => OccursAt t p s := by
      rw [List.range_succ, List.filter_append, List.filter_cons, List.filter_nil]
      by_cases hoccurs : OccursAt t p i
      -- Equal windows have equal hashes.
      · have hsame : valueOf p % modulus = hashT := by
          rw [hhashT, window, show (t.drop i).take p.length = p from hoccurs]
        rw [if_pos ⟨hsame, hoccurs⟩, if_pos (decide_eq_true hoccurs)]
      · rw [if_neg fun h => hoccurs h.2, if_neg (by simpa using hoccurs), List.append_nil]
    rw [rollLoop]
    simp only [hresult]
    by_cases hlast : i < t.length - p.length
    · have hfirst : t[i]? = some t[i] := List.getElem?_eq_getElem (by omega)
      have hnext : t[i + p.length]? = some t[i + p.length] :=
        List.getElem?_eq_getElem (by omega)
      have hthis : window t p.length i = t[i] :: (t.drop (i + 1)).take (p.length - 1) := by
        rw [window, List.drop_eq_getElem_cons (by omega)]
        conv_lhs => rw [show p.length = p.length - 1 + 1 by omega]
        rw [List.take_succ_cons]
      have hthat : window t p.length (i + 1) =
          (t.drop (i + 1)).take (p.length - 1) ++ [t[i + p.length]] := by
        have hget : (t.drop (i + 1))[p.length - 1]? = some t[i + p.length] := by
          rw [List.getElem?_drop, show i + 1 + (p.length - 1) = i + p.length by omega]
          exact hnext
        rw [← take_succ_of_get hget, window, show p.length - 1 + 1 = p.length by omega]
      have hlength : ((t.drop (i + 1)).take (p.length - 1)).length = p.length - 1 := by
        rw [List.length_take, List.length_drop]
        omega
      have hroll := roll_eq t[i] t[i + p.length] ((t.drop (i + 1)).take (p.length - 1))
      rw [← hthis, ← hthat, hlength, ← hhashT] at hroll
      rw [if_pos hlast, hfirst, Option.bind_eq_bind, Option.bind_some, hnext, Option.bind_some,
        hroll, Option.bind_eq_bind, Option.bind_some]
      exact ih (by omega) fun _ => rfl
    · rw [if_neg hlast]
      exact ih (by omega) fun hcount => by omega

end RabinKarp

theorem rabinKarp_eq {t p : Bytes} (hp : p ≠ []) : rabinKarp t p = some (occurrences t p) := by
  have hpos := List.length_pos_of_ne_nil hp
  rw [rabinKarp]
  by_cases hlong : p.length > t.length
  · rw [if_pos (.inr hlong), occurrences, found_of_short hlong]
  · rw [if_neg (by omega)]
    have hle : p.length ≤ t.length := by omega
    have hhash := hashLoop_spec hle p.length (Nat.zero_add p.length)
    rw [show min 0 (p.length - 1) = 0 by omega] at hhash
    rw [show ((0, 0, 1) : Nat × Nat × Nat) = (valueOf (p.take 0) % modulus,
      valueOf (t.take 0) % modulus, base ^ 0 % modulus) from rfl, hhash]
    exact rollLoop_spec hpos hle (t.length - p.length + 1) (Nat.zero_add _) fun _ => rfl

/-- On every text and pattern that is not empty both searches return, with no operation out of
    the range of `u64`, the ascending list of the positions where the pattern stands. -/
theorem searches_agree (t p : Bytes) (hp : p ≠ []) :
    ∃ offsets, kmpSearch t p = some offsets ∧ rabinKarp t p = some offsets ∧
      offsets.Pairwise (· < ·) ∧ ∀ s, s ∈ offsets ↔ p <+: t.drop s :=
  ⟨occurrences t p, kmpSearch_eq hp, rabinKarp_eq hp, occurrences_ascending t p,
    fun _ => mem_occurrences hp⟩

/-- Occurrences that overlap. -/
theorem searches_agree_overlapping :
    ∃ offsets, kmpSearch [97, 98, 97, 98, 97] [97, 98, 97] = some offsets ∧
      rabinKarp [97, 98, 97, 98, 97] [97, 98, 97] = some offsets ∧
      offsets.Pairwise (· < ·) ∧
      ∀ s, s ∈ offsets ↔ [97, 98, 97] <+: ([97, 98, 97, 98, 97] : Bytes).drop s :=
  searches_agree [97, 98, 97, 98, 97] [97, 98, 97] (by decide)

end Canon.Algorithms.StringSearch
