import Mathlib.Data.Set.Card
import Canon.Lib.Probing

/-! # The hash table

    `data_structures/hash_table.rs`: linear probing in a power of two of slots, twice as many
    when seven tenths of them are taken.  `remove` empties the slot of its key.

    The hash function is a parameter.

    * `scan`, `probe`, `rehash`: the loops,
    * `insert`, `get`, `remove`, `run`: the operations and their sequences,
    * `Sized`: what every operation keeps, so that every loop ends,
    * `Refines`: the table stands for a map, kept by every operation but a removal that empties
      a slot on the way to another key,
    * `run_refines`: runs.
-/

namespace Canon.Algorithms.OpenAddressing

open Canon.Lib.Probing

/-! ### Model -/

abbrev Buckets (K V : Type) := List (Option (K × V))

structure HashTable (K V : Type) where
  buckets : Buckets K V
  occupied : Nat
deriving DecidableEq, Repr

variable {K V : Type}

def new : HashTable K V := ⟨List.replicate 16 none, 0⟩

/-- The loop over the slots from `i` on, which ends at the first one with the property.
    Nothing for an index out of bounds, and when the fuel is spent. -/
def scan (stop : Option (K × V) → Bool) (buckets : Buckets K V) : Nat → Nat → Option Nat
  | 0, _ => none
  | fuel + 1, i => do
    let slot ← buckets[i]?
    if stop slot then pure i else scan stop buckets fuel ((i + 1) &&& (buckets.length - 1))

section Model

variable [DecidableEq K] (hash : K → Nat)
variable (t : HashTable K V)

def hashIndex (buckets : Buckets K V) (key : K) : Nat := hash key &&& (buckets.length - 1)

/-- A loop for a key ends at an empty slot and at the key. -/
def endsAt (key : K) : Option (K × V) → Bool
  | none => true
  | some (k, _) => k = key

def probe (buckets : Buckets K V) (key : K) : Option Nat :=
  scan (endsAt key) buckets buckets.length (hashIndex hash buckets key)

omit [DecidableEq K] in
/-- The slots of the old table are put into the new one. -/
def rehash : List (Option (K × V)) → Buckets K V → Option (Buckets K V)
  | [], buckets => some buckets
  | none :: slots, buckets => rehash slots buckets
  | some (k, v) :: slots, buckets => do
    let i ← scan Option.isNone buckets buckets.length (hashIndex hash buckets k)
    rehash slots (buckets.set i (some (k, v)))

omit [DecidableEq K] in
def resize : Option (HashTable K V) := do
  let buckets ← rehash hash t.buckets (List.replicate (t.buckets.length * 2) none)
  pure { t with buckets }

def grow : Option (HashTable K V) :=
  if t.occupied * 10 ≥ t.buckets.length * 7 then resize hash t else pure t

def insert (key : K) (val : V) : Option (HashTable K V) := do
  let t ← grow hash t
  let i ← probe hash t.buckets key
  let slot ← t.buckets[i]?
  match slot with
  | none => pure ⟨t.buckets.set i (some (key, val)), t.occupied + 1⟩
  | some _ => pure ⟨t.buckets.set i (some (key, val)), t.occupied⟩

def get (key : K) : Option (Option V) := do
  let i ← probe hash t.buckets key
  let slot ← t.buckets[i]?
  pure (slot.map Prod.snd)

/-- Nothing also where the count of the entries underflows. -/
def remove (key : K) : Option (Bool × HashTable K V) := do
  let i ← probe hash t.buckets key
  let slot ← t.buckets[i]?
  match slot with
  | none => pure (false, t)
  | some _ =>
    if t.occupied = 0 then none else pure (true, ⟨t.buckets.set i none, t.occupied - 1⟩)

inductive Op (K V : Type) where
  | insert (key : K) (val : V)
  | remove (key : K)
  | get (key : K)
deriving DecidableEq, Repr

inductive Out (V : Type) where
  | inserted
  | removed (present : Bool)
  | got (value : Option V)
deriving DecidableEq, Repr

def step : Op K V → Option (Out V × HashTable K V)
  | .insert key val => (insert hash t key val).map fun t => (.inserted, t)
  | .remove key => (remove hash t key).map fun (present, t) => (.removed present, t)
  | .get key => (get hash t key).map fun value => (.got value, t)

def run : HashTable K V → List (Op K V) → Option (List (Out V) × HashTable K V)
  | t, [] => some ([], t)
  | t, op :: ops => do
    let (out, t) ← step hash t op
    let (outs, t) ← run t ops
    pure (out :: outs, t)

/-! ### The map -/

/-- The map after an operation. -/
def apply (m : K → Option V) : Op K V → K → Option V
  | .insert key val => Function.update m key (some val)
  | .remove key => Function.update m key none
  | .get _ => m

omit [DecidableEq K] in
/-- What an operation answers. -/
def answer (m : K → Option V) : Op K V → Out V
  | .insert _ _ => .inserted
  | .remove key => .removed (m key).isSome
  | .get key => .got (m key)

def applyAll : (K → Option V) → List (Op K V) → K → Option V
  | m, [] => m
  | m, op :: ops => applyAll (apply m op) ops

def answers : (K → Option V) → List (Op K V) → List (Out V)
  | _, [] => []
  | m, op :: ops => answer m op :: answers (apply m op) ops

end Model

/-! ### The slots -/

section Slots

variable {buckets : Buckets K V} {hash : K → Nat} {i c : Nat} {e : Option (K × V)}

/-- What stands in a slot; nothing in one that does not exist. -/
def entryOf (buckets : Buckets K V) (i : Nat) : Option (K × V) := buckets[i]?.join

/-- The home slot of a key. -/
def homeOf (hash : K → Nat) (buckets : Buckets K V) (key : K) : Nat :=
  hash key % buckets.length

theorem getElem?_eq_entryOf (hi : i < buckets.length) :
    buckets[i]? = some (entryOf buckets i) := by
  rw [entryOf, List.getElem?_eq_getElem hi]
  rfl

theorem lt_of_entryOf {entry : K × V} (h : entryOf buckets i = some entry) :
    i < buckets.length := by
  by_contra hge
  rw [entryOf, List.getElem?_eq_none (by omega)] at h
  cases h

theorem entryOf_set (hi : i < buckets.length) :
    entryOf (buckets.set i e) = Function.update (entryOf buckets) i e := by
  funext s
  unfold entryOf
  by_cases hs : s = i
  · rw [hs, List.getElem?_set_self hi, Function.update_self]
    rfl
  · rw [List.getElem?_set_ne (Ne.symm hs), Function.update_of_ne hs]

theorem entryOf_replicate (n i : Nat) :
    entryOf (List.replicate n (none : Option (K × V))) i = none := by
  rw [entryOf, List.getElem?_replicate]
  split
  · rfl
  · rfl

theorem mask_eq (hlength : buckets.length = 2 ^ c) (x : Nat) :
    x &&& (buckets.length - 1) = x % buckets.length := by
  rw [hlength, Nat.and_two_pow_sub_one_eq_mod]

theorem homeOf_lt (hlength : buckets.length = 2 ^ c) (key : K) :
    homeOf hash buckets key < buckets.length := by
  have hpos := Nat.two_pow_pos c
  exact Nat.mod_lt _ (by omega)

theorem hashIndex_eq (hlength : buckets.length = 2 ^ c) (key : K) :
    hashIndex hash buckets key = homeOf hash buckets key := mask_eq hlength (hash key)

theorem homeOf_set : homeOf hash (buckets.set i e) = homeOf hash buckets := by
  funext k
  rw [homeOf, List.length_set, homeOf]

/-- Every entry can be reached from the home slot of its key. -/
abbrev ChainedIn (hash : K → Nat) (buckets : Buckets K V) : Prop :=
  Chained buckets.length (homeOf hash buckets) (entryOf buckets)

theorem chainedIn_set (hi : i < buckets.length) : ChainedIn hash (buckets.set i e) ↔
    Chained buckets.length (homeOf hash buckets) (Function.update (entryOf buckets) i e) := by
  rw [ChainedIn, List.length_set, homeOf_set, entryOf_set hi]

def countOf (buckets : Buckets K V) : Nat := buckets.countP Option.isSome

theorem countOf_set (hi : i < buckets.length) :
    countOf (buckets.set i e) + (if (entryOf buckets i).isSome then 1 else 0) =
      countOf buckets + if e.isSome then 1 else 0 := by
  have hentry : entryOf buckets i = buckets[i] := by
    rw [entryOf, List.getElem?_eq_getElem hi]
    rfl
  unfold countOf
  rw [List.countP_set hi, hentry]
  by_cases hsome : buckets[i].isSome = true
  · have hpos : 0 < buckets.countP Option.isSome :=
      List.countP_pos_iff.mpr ⟨_, List.getElem_mem hi, hsome⟩
    rw [if_pos hsome]
    omega
  · rw [if_neg hsome]
    omega

/-- With fewer entries than slots there is an empty slot, and so one on every way round. -/
theorem exists_free (hroom : countOf buckets < buckets.length) {start : Nat}
    (hstart : start < buckets.length) :
    ∃ d < buckets.length, entryOf buckets (position buckets.length start d) = none := by
  obtain ⟨slot, hmem, hnone⟩ : ∃ slot ∈ buckets, slot.isSome = false := by
    by_contra hall
    have hfull : buckets.countP Option.isSome = buckets.length := by
      apply List.countP_eq_length.mpr
      intro slot hslot
      by_contra hnone
      exact hall ⟨slot, hslot, Bool.eq_false_iff.mpr hnone⟩
    unfold countOf at hroom
    omega
  obtain ⟨s, hs, hget⟩ := List.mem_iff_getElem.mp hmem
  obtain ⟨d, hd, hposition⟩ := exists_position hstart hs
  refine ⟨d, hd, ?_⟩
  rw [hposition, entryOf, List.getElem?_eq_getElem hs, hget]
  cases slot with
  | none => rfl
  | some entry => cases hnone

/-- The loop ends at the first slot with the property, when there is one. -/
theorem scan_spec {stop : Option (K × V) → Bool} (hlength : buckets.length = 2 ^ c) (fuel : Nat) :
    ∀ {start d : Nat}, start < buckets.length → d < fuel →
      stop (entryOf buckets (position buckets.length start d)) = true →
      ∃ d' ≤ d, scan stop buckets fuel start = some (position buckets.length start d') ∧
        stop (entryOf buckets (position buckets.length start d')) = true ∧
        ∀ e < d', stop (entryOf buckets (position buckets.length start e)) = false := by
  induction fuel with
  | zero =>
    intro start d _ hfuel
    omega
  | succ fuel ih =>
    intro start d hstart hfuel hstop
    have hhere := position_zero hstart
    rw [scan, getElem?_eq_entryOf hstart, Option.bind_eq_bind, Option.bind_some]
    by_cases hnow : stop (entryOf buckets start) = true
    · refine ⟨0, Nat.zero_le d, ?_, ?_, ?_⟩
      · rw [if_pos hnow, hhere]
        rfl
      · rw [hhere]
        exact hnow
      · intro e he
        omega
    · have hd : d ≠ 0 := by
        intro hzero
        rw [hzero, hhere] at hstop
        exact hnow hstop
      obtain ⟨d', rfl⟩ := Nat.exists_eq_succ_of_ne_zero hd
      have hnext : (start + 1) % buckets.length < buckets.length := Nat.mod_lt _ (by omega)
      rw [Nat.succ_eq_add_one, ← position_succ] at hstop
      obtain ⟨d₁, hle, hrun, hend, hbefore⟩ := ih hnext (by omega) hstop
      refine ⟨d₁ + 1, by omega, ?_, ?_, ?_⟩
      · rw [if_neg hnow, mask_eq hlength, hrun, position_succ]
      · rw [← position_succ]
        exact hend
      · intro e he
        match e with
        | 0 =>
          rw [hhere]
          exact Bool.eq_false_iff.mpr hnow
        | e + 1 =>
          rw [← position_succ]
          exact hbefore e (by omega)

end Slots

/-! ### Searches -/

section Searches

variable [DecidableEq K] {buckets : Buckets K V} {hash : K → Nat} {c : Nat}

theorem endsAt_iff {key : K} {i : Nat} :
    endsAt key (entryOf buckets i) = true ↔ Stops (entryOf buckets) key i := by
  unfold Stops
  cases hentry : entryOf buckets i with
  | none => simp [endsAt]
  | some entry =>
    obtain ⟨k, v⟩ := entry
    simp [endsAt]

theorem path_of_not_endsAt {key : K} {start d : Nat}
    (h : ∀ e < d, endsAt key (entryOf buckets (position buckets.length start e)) = false) :
    Path buckets.length (entryOf buckets) key start d := by
  intro e he
  have hends := h e he
  cases hentry : entryOf buckets (position buckets.length start e) with
  | none =>
    rw [hentry] at hends
    cases hends
  | some entry =>
    obtain ⟨k, v⟩ := entry
    rw [hentry] at hends
    exact ⟨k, v, rfl, by simpa [endsAt] using hends⟩

theorem probe_spec (hash : K → Nat) (hlength : buckets.length = 2 ^ c)
    (hroom : countOf buckets < buckets.length)
    (key : K) :
    ∃ d < buckets.length, probe hash buckets key =
        some (position buckets.length (homeOf hash buckets key) d) ∧
      Path buckets.length (entryOf buckets) key (homeOf hash buckets key) d ∧
      Stops (entryOf buckets) key (position buckets.length (homeOf hash buckets key) d) := by
  have hhome : homeOf hash buckets key < buckets.length := homeOf_lt hlength key
  obtain ⟨d, hd, hfree⟩ := exists_free hroom hhome
  obtain ⟨d', hle, hrun, hend, hbefore⟩ := scan_spec hlength buckets.length hhome hd
    (show endsAt key (entryOf buckets _) = true from endsAt_iff.mpr (.inl hfree))
  refine ⟨d', by omega, ?_, path_of_not_endsAt hbefore, endsAt_iff.mp hend⟩
  rw [probe, hashIndex_eq hlength]
  exact hrun

/-- The slot where the search for a key ends, and what stands there. -/
theorem probe_cases (hash : K → Nat) (hlength : buckets.length = 2 ^ c)
    (hroom : countOf buckets < buckets.length) (key : K) :
    ∃ i, probe hash buckets key = some i ∧ i < buckets.length ∧
      ((entryOf buckets i = none ∧
        (ChainedIn hash buckets → (∀ s v, entryOf buckets s ≠ some (key, v)) ∧
          ∀ val, ChainedIn hash (buckets.set i (some (key, val))))) ∨
      ∃ v, entryOf buckets i = some (key, v)) := by
  obtain ⟨d, hd, hrun, hpath, hstops⟩ := probe_spec hash hlength hroom key
  have hi : position buckets.length (homeOf hash buckets key) d < buckets.length :=
    position_lt (by omega) _ _
  refine ⟨_, hrun, hi, ?_⟩
  rcases hstops with hnone | hsome
  · left
    refine ⟨hnone, fun hchained => ⟨?_, ?_⟩⟩
    · intro s v hs
      have heq := hchained.found hs hpath (.inl hnone)
      rw [heq, hnone] at hs
      cases hs
    · intro val
      exact (chainedIn_set hi).mpr (hchained.fill hnone hd rfl hpath)
  · exact .inr hsome

end Searches

/-! ### Growth -/

section Growth

variable {buckets : Buckets K V} {hash : K → Nat} {c i : Nat}

def keysOf (slots : List (Option (K × V))) : List K := slots.filterMap (Option.map Prod.fst)

theorem mem_keysOf {slots : List (Option (K × V))} {k : K} :
    k ∈ keysOf slots ↔ ∃ v, some (k, v) ∈ slots := by
  unfold keysOf
  rw [List.mem_filterMap]
  constructor
  · intro ⟨slot, hmem, hslot⟩
    obtain ⟨⟨k', v⟩, rfl, rfl⟩ := Option.map_eq_some_iff.mp hslot
    exact ⟨v, hmem⟩
  · intro ⟨v, hmem⟩
    exact ⟨some (k, v), hmem, rfl⟩

theorem mem_iff_entryOf {k : K} {v : V} :
    some (k, v) ∈ buckets ↔ ∃ s, entryOf buckets s = some (k, v) := by
  rw [List.mem_iff_getElem?]
  constructor
  · intro ⟨s, hs⟩
    exact ⟨s, by rw [entryOf, hs]; rfl⟩
  · intro ⟨s, hs⟩
    refine ⟨s, ?_⟩
    rw [getElem?_eq_entryOf (lt_of_entryOf hs), hs]

/-- No key stands in two slots. -/
theorem keysOf_nodup (h : ChainedIn hash buckets) : (keysOf buckets).Nodup := by
  rw [keysOf, List.Nodup, List.pairwise_filterMap, List.pairwise_iff_getElem]
  intro i j hi hj hij k hk k' hk' heq
  obtain ⟨⟨k₁, v⟩, hv, rfl⟩ := Option.map_eq_some_iff.mp hk
  obtain ⟨⟨k₂, w⟩, hw, rfl⟩ := Option.map_eq_some_iff.mp hk'
  have hentry : ∀ {s : Nat} (hs : s < buckets.length) {e}, buckets[s] = some e →
      entryOf buckets s = some e := by
    intro s hs e he
    rw [entryOf, List.getElem?_eq_getElem hs, he]
    rfl
  have hkeys : k₁ = k₂ := heq
  rw [hkeys] at hv
  have hsame := h.unique (hentry hi hv) (hentry hj hw)
  omega

theorem countOf_fill (entry : K × V) (hi : i < buckets.length)
    (hempty : entryOf buckets i = none) :
    countOf (buckets.set i (some entry)) = countOf buckets + 1 := by
  have hset := countOf_set (e := some entry) hi
  rw [hempty] at hset
  simpa using hset

theorem mem_fill {entry e : K × V} (hi : i < buckets.length)
    (hempty : entryOf buckets i = none) :
    some e ∈ buckets.set i (some entry) ↔ some e ∈ buckets ∨ e = entry := by
  rw [mem_iff_entryOf, entryOf_set hi, mem_iff_entryOf]
  constructor
  · intro ⟨s, hs⟩
    by_cases hsi : s = i
    · rw [hsi, Function.update_self] at hs
      exact .inr (Option.some.inj hs).symm
    · rw [Function.update_of_ne hsi] at hs
      exact .inl ⟨s, hs⟩
  · intro hcase
    rcases hcase with ⟨s, hs⟩ | heq
    · have hsi : s ≠ i := by
        intro hsi
        rw [hsi, hempty] at hs
        cases hs
      exact ⟨s, by rw [Function.update_of_ne hsi, hs]⟩
    · exact ⟨i, by rw [Function.update_self, heq]⟩

/-- The loop of the growth ends at a free slot, and what stands before it are other keys. -/
theorem free_spec (hash : K → Nat) (hlength : buckets.length = 2 ^ c)
    (hroom : countOf buckets < buckets.length)
    (key : K) :
    ∃ d < buckets.length, scan Option.isNone buckets buckets.length (hashIndex hash buckets key) =
        some (position buckets.length (homeOf hash buckets key) d) ∧
      entryOf buckets (position buckets.length (homeOf hash buckets key) d) = none ∧
      (key ∉ keysOf buckets →
        Path buckets.length (entryOf buckets) key (homeOf hash buckets key) d) := by
  have hhome : homeOf hash buckets key < buckets.length := homeOf_lt hlength key
  obtain ⟨d, hd, hfree⟩ := exists_free hroom hhome
  obtain ⟨d', hle, hrun, hend, hbefore⟩ := scan_spec hlength buckets.length hhome hd
    (show Option.isNone (entryOf buckets _) = true from Option.isNone_iff_eq_none.mpr hfree)
  refine ⟨d', by omega, ?_, Option.isNone_iff_eq_none.mp hend, ?_⟩
  · rw [hashIndex_eq hlength]
    exact hrun
  · intro hnew e he
    obtain ⟨⟨k, v⟩, hentry⟩ := Option.ne_none_iff_exists'.mp
      (Option.isNone_eq_false_iff.mp (hbefore e he) |> Option.isSome_iff_ne_none.mp)
    refine ⟨k, v, hentry, ?_⟩
    intro heq
    rw [heq] at hentry
    exact hnew (mem_keysOf.mpr ⟨v, mem_iff_entryOf.mpr ⟨_, hentry⟩⟩)

/-- The entries of the slots find room in the new table. -/
theorem rehash_returns (hash : K → Nat) (slots : List (Option (K × V))) :
    ∀ {buckets : Buckets K V}, buckets.length = 2 ^ c →
      countOf buckets + countOf slots < buckets.length →
      ∃ buckets', rehash hash slots buckets = some buckets' ∧
        buckets'.length = buckets.length ∧ countOf buckets' = countOf buckets + countOf slots := by
  induction slots with
  | nil =>
    intro buckets _ _
    exact ⟨buckets, rfl, rfl, rfl⟩
  | cons slot slots ih =>
    intro buckets hlength hroom
    match slot with
    | none =>
      have hcount : countOf (none :: slots) = countOf slots := rfl
      rw [hcount] at hroom ⊢
      exact ih hlength hroom
    | some (k, v) =>
      have hcount : countOf (some (k, v) :: slots) = countOf slots + 1 :=
        List.countP_cons_of_pos rfl
      rw [hcount] at hroom ⊢
      obtain ⟨d, -, hrun, hempty, -⟩ := free_spec hash hlength (by omega) k
      have hi := position_lt (show 0 < buckets.length by omega) (homeOf hash buckets k) d
      have hfill := countOf_fill (k, v) hi hempty
      obtain ⟨buckets', hrest, hlength', hcount'⟩ := @ih (buckets.set
        (position buckets.length (homeOf hash buckets k) d) (some (k, v)))
        (by rw [List.length_set, hlength]) (by rw [List.length_set]; omega)
      rw [List.length_set] at hlength'
      refine ⟨buckets', ?_, hlength', by omega⟩
      rw [rehash, hrun, Option.bind_eq_bind, Option.bind_some]
      exact hrest

/-- What the new table holds, when no key is put into it twice. -/
theorem rehash_chained (slots : List (Option (K × V))) :
    ∀ {buckets buckets' : Buckets K V}, buckets.length = 2 ^ c →
      countOf buckets + countOf slots < buckets.length →
      rehash hash slots buckets = some buckets' → ChainedIn hash buckets →
      (keysOf slots).Nodup → (∀ k ∈ keysOf slots, k ∉ keysOf buckets) →
      ChainedIn hash buckets' ∧ ∀ k v, some (k, v) ∈ buckets' ↔
        some (k, v) ∈ buckets ∨ some (k, v) ∈ slots := by
  induction slots with
  | nil =>
    intro buckets buckets' _ _ hrun hchained _ _
    rw [← Option.some.inj hrun]
    refine ⟨hchained, ?_⟩
    intro k v
    simp
  | cons slot slots ih =>
    intro buckets buckets' hlength hroom hrun hchained hnodup hfresh
    match slot with
    | none =>
      obtain ⟨hchained', hmem⟩ := ih hlength hroom hrun hchained hnodup hfresh
      refine ⟨hchained', ?_⟩
      intro k v
      rw [hmem]
      simp
    | some (key, val) =>
      have hcount : countOf (some (key, val) :: slots) = countOf slots + 1 :=
        List.countP_cons_of_pos rfl
      have hkeys : keysOf (some (key, val) :: slots) = key :: keysOf slots := rfl
      rw [hcount] at hroom
      rw [hkeys] at hnodup hfresh
      obtain ⟨hnotin, hnodup⟩ := List.nodup_cons.mp hnodup
      obtain ⟨d, hd, hscan, hempty, hpath⟩ := free_spec hash hlength (by omega) key
      have hi := position_lt (show 0 < buckets.length by omega) (homeOf hash buckets key) d
      have hfill := countOf_fill (key, val) hi hempty
      have hchained₁ := (chainedIn_set hi).mpr (hchained.fill (v := val) hempty hd rfl
        (hpath (hfresh key List.mem_cons_self)))
      rw [rehash, hscan, Option.bind_eq_bind, Option.bind_some] at hrun
      obtain ⟨hchained', hmem⟩ := ih (by rw [List.length_set, hlength])
        (by rw [List.length_set]; omega) hrun hchained₁ hnodup (by
          intro k hk hold
          obtain ⟨v, hv⟩ := mem_keysOf.mp hold
          rcases (mem_fill hi hempty).mp hv with hv | heq
          · exact hfresh k (List.mem_cons_of_mem key hk) (mem_keysOf.mpr ⟨v, hv⟩)
          · rw [(Prod.mk.inj heq).1] at hk
            exact hnotin hk)
      refine ⟨hchained', ?_⟩
      intro k v
      rw [hmem, mem_fill hi hempty, List.mem_cons, Option.some_inj]
      tauto

end Growth

/-! ### What every operation keeps -/

section Operations

variable [DecidableEq K] {hash : K → Nat} {t t' : HashTable K V} {m : K → Option V}

/-- A power of two of slots, the number of the entries, and room for another one. -/
structure Sized (t : HashTable K V) : Prop where
  pow : ∃ c, 4 ≤ c ∧ t.buckets.length = 2 ^ c
  count : t.occupied = countOf t.buckets
  room : t.occupied < t.buckets.length

/-- The table stands for the map. -/
structure Refines (hash : K → Nat) (m : K → Option V) (t : HashTable K V) : Prop where
  chained : ChainedIn hash t.buckets
  maps : Maps m (entryOf t.buckets)

omit [DecidableEq K] in
theorem Sized.le_length (h : Sized t) : 16 ≤ t.buckets.length := by
  obtain ⟨c, hc, hlength⟩ := h.pow
  rw [hlength]
  calc 16 = 2 ^ 4 := rfl
    _ ≤ 2 ^ c := Nat.pow_le_pow_right (by decide) hc

omit [DecidableEq K] in
theorem resize_spec (hash : K → Nat) (h : Sized t) :
    ∃ t', resize hash t = some t' ∧ Sized t' ∧ t'.occupied + 1 < t'.buckets.length ∧
      (Refines hash m t → Refines hash m t') := by
  obtain ⟨c, hc, hlength⟩ := h.pow
  have hle := h.le_length
  have hroom := h.room
  have hzero : countOf (List.replicate (t.buckets.length * 2) (none : Option (K × V))) = 0 := by
    unfold countOf
    rw [List.countP_replicate]
    rfl
  have hpow : (List.replicate (t.buckets.length * 2) (none : Option (K × V))).length =
      2 ^ (c + 1) := by
    rw [List.length_replicate, hlength, Nat.pow_succ]
  have hfit : countOf (List.replicate (t.buckets.length * 2) (none : Option (K × V))) +
      countOf t.buckets <
        (List.replicate (t.buckets.length * 2) (none : Option (K × V))).length := by
    rw [hzero, List.length_replicate, ← h.count]
    omega
  obtain ⟨buckets, hrun, hlength', hcount⟩ := rehash_returns hash t.buckets hpow hfit
  rw [hzero, Nat.zero_add] at hcount
  have hdouble := hlength'
  rw [List.length_replicate] at hdouble
  refine ⟨⟨buckets, t.occupied⟩, ?_, ⟨⟨c + 1, by omega, hlength'.trans hpow⟩, ?_, ?_⟩, ?_, ?_⟩
  · rw [resize, hrun]
    rfl
  · exact h.count.trans hcount.symm
  · show t.occupied < buckets.length
    omega
  · show t.occupied + 1 < buckets.length
    omega
  · intro href
    have hnone : ChainedIn hash
        (List.replicate (t.buckets.length * 2) (none : Option (K × V))) := by
      intro s k v hs
      rw [entryOf_replicate] at hs
      cases hs
    obtain ⟨hchained, hmem⟩ := rehash_chained t.buckets hpow hfit hrun hnone
      (keysOf_nodup href.chained) (by
        intro k _ hk
        obtain ⟨v, hv⟩ := mem_keysOf.mp hk
        cases (List.mem_replicate.mp hv).2)
    refine ⟨hchained, ?_⟩
    intro k v
    rw [href.maps k v, ← mem_iff_entryOf, ← mem_iff_entryOf, hmem]
    constructor
    · exact fun hv => .inr hv
    · intro hcase
      rcases hcase with hv | hv
      · cases (List.mem_replicate.mp hv).2
      · exact hv

omit [DecidableEq K] in
theorem grow_spec (hash : K → Nat) (m : K → Option V) (h : Sized t) :
    ∃ t', grow hash t = some t' ∧ Sized t' ∧ t'.occupied + 1 < t'.buckets.length ∧
      (Refines hash m t → Refines hash m t') := by
  rw [grow]
  by_cases hfull : t.occupied * 10 ≥ t.buckets.length * 7
  · rw [if_pos hfull]
    exact resize_spec hash h
  · have hle := h.le_length
    rw [if_neg hfull]
    exact ⟨t, rfl, h, by omega, fun href => href⟩

omit [DecidableEq K] in
theorem Refines.get_none (h : Refines hash m t) {key : K}
    (hnone : ∀ s v, entryOf t.buckets s ≠ some (key, v)) : m key = none := by
  cases hkey : m key with
  | none => rfl
  | some v =>
    obtain ⟨s, hs⟩ := (h.maps key v).mp hkey
    exact absurd hs (hnone s v)

theorem insert_spec (hash : K → Nat) (m : K → Option V) (h : Sized t) (key : K) (val : V) :
    ∃ t', insert hash t key val = some t' ∧ Sized t' ∧
      (Refines hash m t → Refines hash (Function.update m key (some val)) t') := by
  obtain ⟨t₁, hgrow, h₁, hroom, hkeep⟩ := grow_spec hash m h
  obtain ⟨c, hc, hlength⟩ := h₁.pow
  obtain ⟨i, hprobe, hi, hslot⟩ := probe_cases hash hlength
    (by rw [← h₁.count]; exact h₁.room) key
  rw [insert, hgrow, Option.bind_eq_bind, Option.bind_some, hprobe, Option.bind_eq_bind,
    Option.bind_some, getElem?_eq_entryOf hi, Option.bind_eq_bind, Option.bind_some]
  rcases hslot with ⟨hempty, hnew⟩ | ⟨w, hold⟩
  · rw [hempty]
    refine ⟨⟨t₁.buckets.set i (some (key, val)), t₁.occupied + 1⟩, rfl, ⟨?_, ?_, ?_⟩, ?_⟩
    · rw [List.length_set]
      exact h₁.pow
    · rw [countOf_fill _ hi hempty, h₁.count]
    · rw [List.length_set]
      exact hroom
    · intro href
      have href₁ := hkeep href
      obtain ⟨hnone, hfill⟩ := hnew href₁.chained
      refine ⟨hfill val, ?_⟩
      show Maps _ (entryOf (t₁.buckets.set i (some (key, val))))
      rw [entryOf_set hi]
      exact href₁.maps.fill hempty (href₁.get_none hnone)
  · rw [hold]
    have hcount := countOf_set (e := some (key, val)) hi
    rw [hold] at hcount
    refine ⟨⟨t₁.buckets.set i (some (key, val)), t₁.occupied⟩, rfl, ⟨?_, ?_, ?_⟩, ?_⟩
    · rw [List.length_set]
      exact h₁.pow
    · rw [h₁.count]
      simpa using hcount.symm
    · rw [List.length_set]
      exact h₁.room
    · intro href
      have href₁ := hkeep href
      refine ⟨(chainedIn_set hi).mpr (href₁.chained.overwrite hold), ?_⟩
      show Maps _ (entryOf (t₁.buckets.set i (some (key, val))))
      rw [entryOf_set hi]
      exact href₁.maps.write href₁.chained hold (some val)

theorem get_spec (hash : K → Nat) (m : K → Option V) (h : Sized t) (key : K) :
    ∃ value, get hash t key = some value ∧ (Refines hash m t → value = m key) := by
  obtain ⟨c, hc, hlength⟩ := h.pow
  obtain ⟨i, hprobe, hi, hslot⟩ := probe_cases hash hlength
    (by rw [← h.count]; exact h.room) key
  rw [get, hprobe, Option.bind_eq_bind, Option.bind_some, getElem?_eq_entryOf hi,
    Option.bind_eq_bind, Option.bind_some]
  refine ⟨_, rfl, ?_⟩
  intro href
  rcases hslot with ⟨hempty, hnew⟩ | ⟨w, hold⟩
  · rw [hempty, href.get_none (hnew href.chained).1]
    rfl
  · rw [hold, (href.maps key w).mpr ⟨i, hold⟩]
    rfl

/-- The slot of the key is on the way to no other key. -/
abbrev Removable (hash : K → Nat) (t : HashTable K V) (key : K) : Prop :=
  OffPaths t.buckets.length (homeOf hash t.buckets) (entryOf t.buckets) key

theorem remove_spec (hash : K → Nat) (m : K → Option V) (h : Sized t) (key : K) :
    ∃ present t', remove hash t key = some (present, t') ∧ Sized t' ∧
      (Refines hash m t → present = (m key).isSome ∧
        (Removable hash t key → Refines hash (Function.update m key none) t')) := by
  obtain ⟨c, hc, hlength⟩ := h.pow
  obtain ⟨i, hprobe, hi, hslot⟩ := probe_cases hash hlength
    (by rw [← h.count]; exact h.room) key
  rw [remove, hprobe, Option.bind_eq_bind, Option.bind_some, getElem?_eq_entryOf hi,
    Option.bind_eq_bind, Option.bind_some]
  rcases hslot with ⟨hempty, hnew⟩ | ⟨w, hold⟩
  · rw [hempty]
    refine ⟨false, t, rfl, h, ?_⟩
    intro href
    have hnone := href.get_none (hnew href.chained).1
    rw [hnone]
    refine ⟨rfl, fun _ => ?_⟩
    rw [← hnone, Function.update_eq_self]
    exact href
  · rw [hold]
    have hcount := countOf_set (e := (none : Option (K × V))) hi
    rw [hold] at hcount
    simp only [Option.isSome_none, Option.isSome_some, Bool.false_eq_true, if_false, if_true]
      at hcount
    have hoccupied := h.count
    have hroom := h.room
    refine ⟨true, ⟨t.buckets.set i none, t.occupied - 1⟩, ?_, ⟨?_, ?_, ?_⟩, ?_⟩
    · show (if t.occupied = 0 then none else _) = _
      rw [if_neg (by omega)]
      rfl
    · rw [List.length_set]
      exact h.pow
    · show t.occupied - 1 = countOf (t.buckets.set i none)
      omega
    · show t.occupied - 1 < (t.buckets.set i none).length
      rw [List.length_set]
      omega
    · intro href
      rw [(href.maps key w).mpr ⟨i, hold⟩]
      refine ⟨rfl, fun hoff => ⟨(chainedIn_set hi).mpr (href.chained.clear hold hoff), ?_⟩⟩
      show Maps _ (entryOf (t.buckets.set i none))
      rw [entryOf_set hi]
      exact href.maps.write href.chained hold none

theorem step_spec (hash : K → Nat) (m : K → Option V) (h : Sized t) (op : Op K V) :
    ∃ out t', step hash t op = some (out, t') ∧ Sized t' ∧
      (Refines hash m t → out = answer m op ∧
        ((∀ key, op = .remove key → Removable hash t key) → Refines hash (apply m op) t')) := by
  match op with
  | .insert key val =>
    obtain ⟨t', hrun, hsized, href⟩ := insert_spec hash m h key val
    refine ⟨.inserted, t', ?_, hsized, fun hr => ⟨rfl, fun _ => href hr⟩⟩
    rw [step, hrun]
    rfl
  | .remove key =>
    obtain ⟨present, t', hrun, hsized, href⟩ := remove_spec hash m h key
    refine ⟨.removed present, t', ?_, hsized, ?_⟩
    · rw [step, hrun]
      rfl
    · intro hr
      obtain ⟨hpresent, hkept⟩ := href hr
      rw [hpresent]
      exact ⟨rfl, fun hoff => hkept (hoff key rfl)⟩
  | .get key =>
    obtain ⟨value, hrun, hvalue⟩ := get_spec hash m h key
    refine ⟨.got value, t, ?_, h, ?_⟩
    · rw [step, hrun]
      rfl
    · intro hr
      rw [hvalue hr]
      exact ⟨rfl, fun _ => hr⟩

end Operations

/-! ### Runs -/

section Runs

variable [DecidableEq K] {hash : K → Nat}

/-- Every removal of the run empties a slot that is on the way to no other key. -/
def SafeRun (hash : K → Nat) : HashTable K V → List (Op K V) → Prop
  | _, [] => True
  | t, op :: ops => (∀ key, op = .remove key → Removable hash t key) ∧
      ∀ out t', step hash t op = some (out, t') → SafeRun hash t' ops

omit [DecidableEq K] in
theorem new_sized : Sized (new : HashTable K V) := by
  refine ⟨⟨4, Nat.le_refl 4, rfl⟩, ?_, ?_⟩
  · show 0 = countOf (List.replicate 16 (none : Option (K × V)))
    unfold countOf
    rw [List.countP_replicate]
    rfl
  · show 0 < (List.replicate 16 (none : Option (K × V))).length
    rw [List.length_replicate]
    omega

omit [DecidableEq K] in
theorem new_refines : Refines hash (fun _ => none) (new : HashTable K V) := by
  have hentry : ∀ s, entryOf (new : HashTable K V).buckets s = none :=
    fun s => entryOf_replicate 16 s
  constructor
  · intro s k v hs
    rw [hentry] at hs
    cases hs
  · intro k v
    constructor
    · intro hv
      cases hv
    · intro ⟨s, hs⟩
      rw [hentry] at hs
      cases hs

theorem run_returns (hash : K → Nat) (ops : List (Op K V)) :
    ∀ {t : HashTable K V}, Sized t → ∃ outs t', run hash t ops = some (outs, t') ∧ Sized t' := by
  induction ops with
  | nil =>
    intro t h
    exact ⟨[], t, rfl, h⟩
  | cons op ops ih =>
    intro t h
    obtain ⟨out, t₁, hstep, h₁, -⟩ := step_spec hash (fun _ => none) h op
    obtain ⟨outs, t', hrun, h'⟩ := ih h₁
    refine ⟨out :: outs, t', ?_, h'⟩
    rw [run, hstep, Option.bind_eq_bind, Option.bind_some]
    simp only [hrun]
    rfl

theorem run_refines (ops : List (Op K V)) :
    ∀ {m : K → Option V} {t : HashTable K V}, Sized t → Refines hash m t →
      SafeRun hash t ops → ∃ t', run hash t ops = some (answers m ops, t') ∧ Sized t' ∧
        Refines hash (applyAll m ops) t' := by
  induction ops with
  | nil =>
    intro m t h href _
    exact ⟨t, rfl, h, href⟩
  | cons op ops ih =>
    intro m t h href hsafe
    obtain ⟨out, t₁, hstep, h₁, hkeep⟩ := step_spec hash m h op
    obtain ⟨hout, hnext⟩ := hkeep href
    obtain ⟨t', hrun, h', href'⟩ := ih h₁ (hnext hsafe.1) (hsafe.2 out t₁ hstep)
    refine ⟨t', ?_, h', href'⟩
    rw [run, hstep, Option.bind_eq_bind, Option.bind_some]
    simp only [hrun, hout]
    rfl

omit [DecidableEq K] in
theorem ncard_keys {m : K → Option V} {t : HashTable K V} (h : Sized t)
    (href : Refines hash m t) : t.occupied = {k | (m k).isSome}.ncard := by
  classical
  have hkeys : {k | (m k).isSome} = ((keysOf t.buckets).toFinset : Set K) := by
    ext k
    rw [Set.mem_ofPred_eq, Option.isSome_iff_exists, List.coe_toFinset, Set.mem_ofPred_eq,
      mem_keysOf]
    constructor
    · intro ⟨v, hv⟩
      exact ⟨v, mem_iff_entryOf.mpr ((href.maps k v).mp hv)⟩
    · intro ⟨v, hv⟩
      exact ⟨v, (href.maps k v).mpr (mem_iff_entryOf.mp hv)⟩
  rw [hkeys, Set.ncard_coe_finset, List.toFinset_card_of_nodup (keysOf_nodup href.chained),
    keysOf, List.length_filterMap_eq_countP, h.count]
  unfold countOf
  congr 1
  funext slot
  cases slot with
  | none => rfl
  | some entry => rfl

theorem SafeRun.cons {t t' : HashTable K V} {op : Op K V} {ops : List (Op K V)} {out : Out V}
    (hstep : step hash t op = some (out, t'))
    (hoff : ∀ key, op = .remove key → Removable hash t key) (h : SafeRun hash t' ops) :
    SafeRun hash t (op :: ops) := by
  refine ⟨hoff, ?_⟩
  intro out' t₁ hstep'
  rw [hstep] at hstep'
  rw [← (Prod.mk.inj (Option.some.inj hstep')).2]
  exact h

end Runs

/-- Every loop of every run ends.  In a run whose removals each empty a slot that is on the way
    to no other key, the table answers as a map does, counts its keys and holds none of them
    twice. -/
theorem table_refines {K V : Type} [DecidableEq K] (hash : K → Nat) (ops : List (Op K V)) :
    (∃ outs t, run hash new ops = some (outs, t)) ∧
    (SafeRun hash new ops → ∃ t,
      run hash new ops = some (answers (fun _ => none) ops, t) ∧
      (∀ key, get hash t key = some (applyAll (fun _ => none) ops key)) ∧
      t.occupied = {k | (applyAll (fun _ => none) ops k).isSome}.ncard ∧
      ∀ s s' k v w, entryOf t.buckets s = some (k, v) → entryOf t.buckets s' = some (k, w) →
        s = s') := by
  constructor
  · obtain ⟨outs, t, hrun, -⟩ := run_returns hash ops new_sized
    exact ⟨outs, t, hrun⟩
  · intro hsafe
    obtain ⟨t, hrun, hsized, href⟩ := run_refines ops new_sized new_refines hsafe
    refine ⟨t, hrun, ?_, ncard_keys hsized href, ?_⟩
    · intro key
      obtain ⟨value, hget, hvalue⟩ := get_spec hash _ hsized key
      rw [hget, hvalue href]
    · intro s s' k v w hs hs'
      exact href.chained.unique hs hs'

/-- Two keys with one home slot; the second of them is removed. -/
def exampleRun : List (Op Bool Bool) :=
  [.insert false true, .insert true false, .remove true, .get false]

theorem table_refines_example :
    ∃ t, run (fun _ => 0) new exampleRun = some (answers (fun _ => none) exampleRun, t) ∧
      t.occupied = {k | (applyAll (fun _ => none) exampleRun k).isSome}.ncard := by
  have hsafe : SafeRun (fun _ => 0) new exampleRun := by
    apply SafeRun.cons rfl (fun key h => by cases h)
    apply SafeRun.cons rfl (fun key h => by cases h)
    apply SafeRun.cons rfl
    · intro key h k v d hd hentry hne e he
      rw [← Op.remove.inj h] at hne ⊢
      have hhome : d = 0 := by
        clear he h e
        revert k v d
        decide +kernel
      omega
    · exact SafeRun.cons rfl (fun key h => by cases h) trivial
  obtain ⟨t, hrun, -, hcount, -⟩ := (table_refines (fun _ => 0) exampleRun).2 hsafe
  exact ⟨t, hrun, hcount⟩

/-- The first of them is removed, and the second is no longer found. -/
theorem removal_hides_key :
    ¬ ∀ (hash : Bool → Nat) (ops : List (Op Bool Bool)),
      ∃ t, run hash new ops = some (answers (fun _ => none) ops, t) := by
  intro h
  obtain ⟨t, hrun⟩ := h (fun _ => 0)
    [.insert false true, .insert true false, .remove false, .get true]
  have houts : (run (fun _ => 0) new
      [.insert false true, .insert true false, .remove false, .get true]).map Prod.fst =
        some (answers (fun _ => none)
          [Op.insert false true, .insert true false, .remove false, .get true]) := by
    rw [hrun]
    rfl
  revert houts
  decide +kernel

end Canon.Algorithms.OpenAddressing
