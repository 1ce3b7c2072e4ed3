import Canon.Lib.Text

/-! # Texts cut at a byte

    A text is cut after a number of bytes where these end with a character.  Where
    they end inside one, the cut fails.
-/

namespace Text

/-- The text is kept whole, or a whole number of characters fills the first `limit`
    bytes. -/
def CutsAt (limit : Nat) (text : Text) : Prop :=
  Text.byteLen text ≤ limit ∨ ∃ front, front <+: text ∧ Text.byteLen front = limit

theorem byteLen_cons (c : Char) (text : Text) :
    byteLen (c :: text) = c.utf8Size + byteLen text := by
  simp [byteLen]

theorem byteLen_append (a b : Text) : byteLen (a ++ b) = byteLen a + byteLen b := by
  simp [byteLen]

theorem takeBytes?_eq_some_iff (n : Nat) (text front : Text) :
    takeBytes? n text = some front ↔ front <+: text ∧ byteLen front = n := by
  fun_induction takeBytes? n text generalizing front with
  | case1 text =>
    constructor
    · intro h
      rw [← Option.some.inj h]
      exact ⟨List.nil_prefix, rfl⟩
    · rintro ⟨-, hlen⟩
      cases front with
      | nil => rfl
      | cons c front =>
        have hpos := c.utf8Size_pos
        rw [byteLen_cons] at hlen
        omega
  | case2 n =>
    constructor
    · intro h
      simp at h
    · rintro ⟨hfront, hlen⟩
      rw [List.prefix_nil.mp hfront] at hlen
      simp [byteLen] at hlen
  | case3 n c text hle ih =>
    rw [Option.map_eq_some_iff]
    constructor
    · rintro ⟨rest, hrest, rfl⟩
      obtain ⟨hpre, hlen⟩ := (ih rest).mp hrest
      refine ⟨List.cons_prefix_cons.mpr ⟨rfl, hpre⟩, ?_⟩
      rw [byteLen_cons]
      omega
    · rintro ⟨hfront, hlen⟩
      cases front with
      | nil => simp [byteLen] at hlen
      | cons d front =>
        obtain ⟨rfl, hpre⟩ := List.cons_prefix_cons.mp hfront
        rw [byteLen_cons] at hlen
        exact ⟨front, (ih front).mpr ⟨hpre, by omega⟩, rfl⟩
  | case4 n c text hgt =>
    constructor
    · intro h
      simp at h
    · rintro ⟨hfront, hlen⟩
      cases front with
      | nil => simp [byteLen] at hlen
      | cons d front =>
        obtain ⟨rfl, -⟩ := List.cons_prefix_cons.mp hfront
        rw [byteLen_cons] at hlen
        omega

theorem takeBytes?_isSome_iff (n : Nat) (text : Text) :
    (takeBytes? n text).isSome ↔ ∃ front, front <+: text ∧ byteLen front = n := by
  rw [Option.isSome_iff_exists]
  exact exists_congr fun front => takeBytes?_eq_some_iff n text front

/-- A cut as all places make it, with what they append to the part they keep. -/
theorem isSome_cut_iff (limit : Nat) (text : Text) (keep : Text → Text) (whole : Text) :
    (if Text.byteLen text > limit then (Text.takeBytes? limit text).map keep
      else some whole).isSome ↔ CutsAt limit text := by
  unfold CutsAt
  split
  · rename_i hlong
    rw [Option.isSome_map, takeBytes?_isSome_iff]
    have hnot : ¬ Text.byteLen text ≤ limit := by omega
    simp [hnot]
  · rename_i hshort
    have hle : Text.byteLen text ≤ limit := by omega
    simp [hle]

/-- Trimming leaves no byte behind that was not there. -/
theorem byteLen_trim_le (text : Text) : byteLen (trim text) ≤ byteLen text := by
  have hstart : ∀ s : Text, byteLen (trimStart s) ≤ byteLen s := by
    intro s
    obtain ⟨front, hfront⟩ := s.dropWhile_suffix isWhitespace
    rw [trimStart, ← congrArg byteLen hfront, byteLen_append]
    omega
  have hend : byteLen (trimEnd text) ≤ byteLen text := by
    obtain ⟨back, hback⟩ := text.rdropWhile_prefix isWhitespace
    rw [trimEnd, ← congrArg byteLen hback, byteLen_append]
    omega
  exact (hstart _).trans hend

theorem isWhitespace_head_trim {c : Char} {text rest : Text} (h : trim text = c :: rest) :
    isWhitespace c = false := by
  have hhead := List.head?_dropWhile_not isWhitespace (trimEnd text)
  have hcons : (trimEnd text).dropWhile isWhitespace = c :: rest := h
  rw [hcons] at hhead
  simpa using hhead

/-- One-byte characters up to the limit and a wider one across it. -/
theorem not_cutsAt_replicate (n : Nat) {a c : Char} (ha : a.utf8Size = 1) (hc : 1 < c.utf8Size) :
    ¬ CutsAt (n + 1) (List.replicate n a ++ [c]) := by
  have hfill : byteLen (List.replicate n a) = n := by
    simp [byteLen, ha]
  rintro (hshort | ⟨front, hfront, hlen⟩)
  · rw [byteLen_append, hfill] at hshort
    simp [byteLen] at hshort
    omega
  · rcases List.prefix_concat_iff.mp hfront with rfl | hinside
    · rw [byteLen_append, hfill] at hlen
      simp [byteLen] at hlen
      omega
    · obtain ⟨back, hback⟩ := hinside
      have hsum := congrArg byteLen hback
      rw [byteLen_append, hfill] at hsum
      omega

end Text
