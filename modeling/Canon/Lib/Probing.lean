import Mathlib.Logic.Function.Basic

/-! # Linear probing

    Entries stand in a ring of slots.  A key belongs at its home slot, and where that is taken
    by another key, at the next free one; it is found again as long as no slot between the two
    becomes empty.

    * `Path`, `Chained`: every entry can be reached from the home slot of its key,
    * `Chained.unique`, `Chained.found`: where a search ends,
    * `Chained.fill`, `Chained.overwrite`, `Chained.clear`: the writes,
    * `OffPaths`: what a slot must not be for its entry to be removed.
-/

namespace Canon.Lib.Probing

variable {K V : Type*} {cap : Nat} {home : K → Nat} {entry : Nat → Option (K × V)}
  {key k : K} {v w : V} {d i s start : Nat}

/-- The slot so many steps after the start. -/
def position (cap start d : Nat) : Nat := (start + d) % cap

/-- Other keys take the slots of the first `d` steps. -/
def Path (cap : Nat) (entry : Nat → Option (K × V)) (key : K) (start d : Nat) : Prop :=
  ∀ e < d, ∃ k v, entry (position cap start e) = some (k, v) ∧ k ≠ key

def Chained (cap : Nat) (home : K → Nat) (entry : Nat → Option (K × V)) : Prop :=
  ∀ s k v, entry s = some (k, v) →
    ∃ d < cap, s = position cap (home k) d ∧ Path cap entry k (home k) d

/-- A search for the key ends at the slot. -/
def Stops (entry : Nat → Option (K × V)) (key : K) (i : Nat) : Prop :=
  entry i = none ∨ ∃ v, entry i = some (key, v)

/-- The entries are those of the map. -/
def Maps (m : K → Option V) (entry : Nat → Option (K × V)) : Prop :=
  ∀ k v, m k = some v ↔ ∃ s, entry s = some (k, v)

/-! ### Positions -/

theorem position_zero (h : start < cap) : position cap start 0 = start := Nat.mod_eq_of_lt h

theorem position_succ (start d : Nat) :
    position cap ((start + 1) % cap) d = position cap start (d + 1) := by
  unfold position
  rw [Nat.mod_add_mod, Nat.add_assoc, Nat.add_comm 1 d]

theorem position_lt (hcap : 0 < cap) (start d : Nat) : position cap start d < cap :=
  Nat.mod_lt _ hcap

/-- Every slot is fewer steps away than there are slots. -/
theorem exists_position (hstart : start < cap) (hs : s < cap) :
    ∃ d < cap, position cap start d = s := by
  by_cases hle : start ≤ s
  · refine ⟨s - start, by omega, ?_⟩
    rw [position, show start + (s - start) = s by omega, Nat.mod_eq_of_lt hs]
  · refine ⟨s + cap - start, by omega, ?_⟩
    rw [position, show start + (s + cap - start) = s + cap by omega, Nat.add_mod_right,
      Nat.mod_eq_of_lt hs]

/-! ### Searches -/

theorem Path.not_stops (h : Path cap entry key start d) {e : Nat} (he : e < d) :
    ¬ Stops entry key (position cap start e) := by
  obtain ⟨k, v, hentry, hne⟩ := h e he
  intro hstops
  rcases hstops with hnone | ⟨w, hsome⟩
  · rw [hnone] at hentry
    cases hentry
  · rw [hsome] at hentry
    exact hne (Prod.mk.inj (Option.some.inj hentry)).1.symm

/-- The search for a key that is stored ends where it is. -/
theorem Chained.found (h : Chained cap home entry) (hkey : entry s = some (key, v))
    (hpath : Path cap entry key (home key) d)
    (hstops : Stops entry key (position cap (home key) d)) :
    s = position cap (home key) d := by
  obtain ⟨e, -, hs, hpath'⟩ := h s key v hkey
  rcases Nat.lt_trichotomy d e with hlt | heq | hlt
  · exact absurd hstops (hpath'.not_stops hlt)
  · rw [hs, heq]
  · rw [hs] at hkey
    exact absurd (.inr ⟨v, hkey⟩) (hpath.not_stops hlt)

theorem Chained.unique (h : Chained cap home entry) (hkey : entry s = some (key, v)) {s' : Nat}
    (hkey' : entry s' = some (key, w)) : s = s' := by
  obtain ⟨d, -, hs', hpath⟩ := h s' key w hkey'
  rw [hs'] at hkey' ⊢
  exact h.found hkey hpath (.inr ⟨w, hkey'⟩)

/-! ### Writes -/

/-- Where the slot is not on the way, or still holds another key, the way stays. -/
theorem Path.update {e : Option (K × V)} (h : Path cap entry key start d)
    (hslot : ∀ m < d, position cap start m = i → ∃ k v, e = some (k, v) ∧ k ≠ key) :
    Path cap (Function.update entry i e) key start d := by
  intro m hm
  by_cases hi : position cap start m = i
  · obtain ⟨k, v, he, hne⟩ := hslot m hm hi
    exact ⟨k, v, by rw [hi, Function.update_self, he], hne⟩
  · rw [Function.update_of_ne hi]
    exact h m hm

/-- The key is put into a slot on its own way that no other way needs. -/
theorem Chained.put (h : Chained cap home entry) (hd : d < cap)
    (hi : i = position cap (home key) d) (hpath : Path cap entry key (home key) d)
    (hother : ∀ k start d, Path cap entry k start d →
      ∀ m < d, position cap start m = i → key ≠ k) :
    Chained cap home (Function.update entry i (some (key, v))) := by
  have hkeep : ∀ {k start d}, Path cap entry k start d →
      Path cap (Function.update entry i (some (key, v))) k start d := by
    intro k start d hp
    exact hp.update fun m hm hmi => ⟨key, v, rfl, hother k start d hp m hm hmi⟩
  intro s k w hs
  by_cases hsi : s = i
  · rw [hsi, Function.update_self] at hs
    obtain ⟨rfl, -⟩ := Prod.mk.inj (Option.some.inj hs)
    exact ⟨d, hd, hsi.trans hi, hkeep hpath⟩
  · rw [Function.update_of_ne hsi] at hs
    obtain ⟨e, he, hse, hp⟩ := h s k w hs
    exact ⟨e, he, hse, hkeep hp⟩

/-- A key that is not stored is put where the search for it ended. -/
theorem Chained.fill (h : Chained cap home entry) (hempty : entry i = none) (hd : d < cap)
    (hi : i = position cap (home key) d) (hpath : Path cap entry key (home key) d) :
    Chained cap home (Function.update entry i (some (key, v))) := by
  apply h.put hd hi hpath
  intro k start d hp m hm hmi
  exact absurd (hmi ▸ .inl hempty) (hp.not_stops hm)

theorem Chained.overwrite (h : Chained cap home entry) (hkey : entry i = some (key, w)) :
    Chained cap home (Function.update entry i (some (key, v))) := by
  obtain ⟨e, he, hi, hpath⟩ := h i key w hkey
  apply h.put he hi hpath
  intro k start d hp m hm hmi
  obtain ⟨k', v', hentry, hne⟩ := hp m hm
  rw [hmi, hkey] at hentry
  rwa [← (Prod.mk.inj (Option.some.inj hentry)).1] at hne

/-- No other stored key is reached over a slot that holds the key. -/
def OffPaths (cap : Nat) (home : K → Nat) (entry : Nat → Option (K × V)) (key : K) : Prop :=
  ∀ k v d, d < cap → entry (position cap (home k) d) = some (k, v) → k ≠ key →
    ∀ e < d, ∀ w, entry (position cap (home k) e) ≠ some (key, w)

theorem Chained.clear (h : Chained cap home entry) (hkey : entry i = some (key, w))
    (hoff : OffPaths cap home entry key) : Chained cap home (Function.update entry i none) := by
  intro s k v hs
  have hsi : s ≠ i := by
    intro heq
    rw [heq, Function.update_self] at hs
    cases hs
  rw [Function.update_of_ne hsi] at hs
  obtain ⟨d, hd, hsd, hp⟩ := h s k v hs
  refine ⟨d, hd, hsd, hp.update ?_⟩
  intro m hm hmi
  have hne : k ≠ key := by
    intro heq
    rw [heq] at hs
    exact hsi (h.unique hs hkey)
  rw [hsd] at hs
  exact absurd (hmi ▸ hkey) (hoff k v d hd hs hne m hm w)

/-! ### The map -/

variable [DecidableEq K] {m : K → Option V}

theorem Maps.fill (h : Maps m entry) (hempty : entry i = none) (hnew : m key = none) :
    Maps (Function.update m key (some v)) (Function.update entry i (some (key, v))) := by
  intro k w
  by_cases hk : k = key
  · rw [hk, Function.update_self]
    constructor
    · intro heq
      exact ⟨i, by rw [Function.update_self, Option.some.inj heq]⟩
    · intro ⟨s, hs⟩
      by_cases hsi : s = i
      · rw [hsi, Function.update_self] at hs
        rw [(Prod.mk.inj (Option.some.inj hs)).2]
      · rw [Function.update_of_ne hsi] at hs
        rw [(h key w).mpr ⟨s, hs⟩] at hnew
        cases hnew
  · rw [Function.update_of_ne hk, h]
    constructor
    · intro ⟨s, hs⟩
      have hsi : s ≠ i := by
        intro heq
        rw [heq, hempty] at hs
        cases hs
      exact ⟨s, by rw [Function.update_of_ne hsi, hs]⟩
    · intro ⟨s, hs⟩
      by_cases hsi : s = i
      · rw [hsi, Function.update_self] at hs
        exact absurd (Prod.mk.inj (Option.some.inj hs)).1.symm hk
      · rw [Function.update_of_ne hsi] at hs
        exact ⟨s, hs⟩

/-- A write to the slot of a key, of a new value or of nothing. -/
theorem Maps.write (h : Maps m entry) (hchained : Chained cap home entry)
    (hkey : entry i = some (key, w)) (value : Option V) :
    Maps (Function.update m key value)
      (Function.update entry i (value.map fun v => (key, v))) := by
  intro k u
  by_cases hk : k = key
  · rw [hk, Function.update_self]
    constructor
    · intro heq
      exact ⟨i, by rw [Function.update_self, heq]; rfl⟩
    · intro ⟨s, hs⟩
      by_cases hsi : s = i
      · rw [hsi, Function.update_self] at hs
        obtain ⟨v, hv, hpair⟩ := Option.map_eq_some_iff.mp hs
        rw [hv, (Prod.mk.inj hpair).2]
      · rw [Function.update_of_ne hsi] at hs
        exact absurd (hchained.unique hs hkey) hsi
  · rw [Function.update_of_ne hk, h]
    constructor
    · intro ⟨s, hs⟩
      have hsi : s ≠ i := by
        intro heq
        rw [heq, hkey] at hs
        exact hk (Prod.mk.inj (Option.some.inj hs)).1.symm
      exact ⟨s, by rw [Function.update_of_ne hsi, hs]⟩
    · intro ⟨s, hs⟩
      by_cases hsi : s = i
      · rw [hsi, Function.update_self] at hs
        obtain ⟨v, -, hpair⟩ := Option.map_eq_some_iff.mp hs
        exact absurd (Prod.mk.inj hpair).1.symm hk
      · rw [Function.update_of_ne hsi] at hs
        exact ⟨s, hs⟩

end Canon.Lib.Probing
