import Canon.Lib.Bytes

/-! # Records at fixed places

    Reading words and records of a fixed width by their position in a byte string, and
    texts that end in a zero byte.
-/

/-- The little-endian word of `width` bytes at a position. -/
def readLe (data : Bytes) (pos width : Nat) : Nat := ofLe ((data.drop pos).take width)

theorem ofLe_lt (bs : Bytes) : ofLe bs < 256 ^ bs.length := by
  induction bs with
  | nil => exact Nat.one_pos
  | cons b bs ih =>
    have hb := b.toNat_lt
    rw [ofLe, List.length_cons, Nat.pow_succ]
    omega

/-- A word of four bytes. -/
theorem readLe_lt (data : Bytes) (pos : Nat) : readLe data pos 4 < 2 ^ 32 := by
  have hlt := ofLe_lt ((data.drop pos).take 4)
  have hlen : ((data.drop pos).take 4).length ≤ 4 := List.length_take_le 4 _
  have hpow : 256 ^ ((data.drop pos).take 4).length ≤ 256 ^ 4 :=
    Nat.pow_le_pow_right (by decide) hlen
  exact Nat.lt_of_lt_of_le hlt hpow

def readByte (data : Bytes) (pos : Nat) : UInt8 := (data[pos]?).getD 0

theorem readLe_leBytes {data before after : Bytes} {pos width n : Nat}
    (hdata : data = before ++ (leBytes width n ++ after)) (hpos : pos = before.length) :
    readLe data pos width = n % 256 ^ width := by
  rw [readLe, hdata, hpos, List.drop_left, List.take_left' (leBytes_length width n), ofLe_leBytes]

theorem readByte_cons {data : Bytes} {pos : Nat} {b : UInt8} (before after : Bytes)
    (hdata : data = before ++ (b :: after)) (hpos : pos = before.length) :
    readByte data pos = b := by
  rw [readByte, hdata, hpos, List.getElem?_append_right (Nat.le_refl _)]
  simp

/-! ### Records -/

/-- `count` records of one width, one behind the other. -/
def readEach {α : Type} (read : Nat → α) (width : Nat) : (count pos : Nat) → List α
  | 0, _ => []
  | count + 1, pos => read pos :: readEach read width count (pos + width)

/-- Records of one width that are written one behind the other are read back if each of
    them is. -/
theorem readEach_flatMap {α : Type} {write : α → Bytes} {read : Bytes → Nat → α} {width : Nat}
    {xs : List α} (hwidth : ∀ x, (write x).length = width)
    (hread : ∀ x ∈ xs, ∀ before after, read (before ++ (write x ++ after)) before.length = x)
    (before after : Bytes) :
    readEach (read (before ++ (xs.flatMap write ++ after))) width xs.length before.length = xs := by
  induction xs generalizing before with
  | nil => rfl
  | cons x xs ih =>
    have hfirst := hread x (by simp) before (xs.flatMap write ++ after)
    have hrest := ih (fun y hy => hread y (by simp [hy])) (before ++ write x)
    rw [List.append_assoc, List.length_append, hwidth] at hrest
    rw [List.length_cons, readEach, List.flatMap_cons, List.append_assoc, hfirst, hrest]

theorem length_flatMap_of_width {β : Type} {write : β → Bytes} {width : Nat}
    (hwidth : ∀ x, (write x).length = width) (xs : List β) :
    (xs.flatMap write).length = width * xs.length := by
  induction xs with
  | nil => rfl
  | cons x xs ih =>
    rw [List.flatMap_cons, List.length_append, hwidth, ih, List.length_cons, Nat.mul_succ]
    omega

/-! ### Texts that end in a zero byte -/

/-- Only the zero character has a zero byte. -/
theorem zero_mem_utf8 {s : List Char} (h : (0 : UInt8) ∈ utf8 s) : '\x00' ∈ s := by
  have hzero : String.utf8EncodeChar '\x00' = [0] := by decide
  rw [utf8, List.mem_flatMap] at h
  obtain ⟨c, hc, hmem⟩ := h
  obtain ⟨front, back, hsplit⟩ := List.append_of_mem hmem
  -- A zero byte starts a character.
  have hfirst : (0 : UInt8).IsUTF8FirstByte := by decide
  have hlt : front.length < (String.utf8EncodeChar c).length := by
    rw [hsplit]
    simp
  have hget : (String.utf8EncodeChar c)[front.length] = 0 := by simp [hsplit]
  rw [← hget, UInt8.isUTF8FirstByte_getElem_utf8EncodeChar] at hfirst
  have hfront : front = [] := List.eq_nil_of_length_eq_zero hfirst
  have henc : String.utf8EncodeChar c ++ [] = String.utf8EncodeChar '\x00' ++ back := by
    rw [hsplit, hfront, hzero]
    simp
  rw [← (utf8EncodeChar_append_inj henc).1]
  exact hc

/-- Up to the zero byte. -/
theorem takeWhile_terminated {bs : Bytes} (h : (0 : UInt8) ∉ bs) (after : Bytes) :
    (bs ++ 0 :: after).takeWhile (· != 0) = bs := by
  rw [List.takeWhile_append_of_pos]
  · simp
  · intro b hb
    have hne : b ≠ 0 := by
      rintro rfl
      exact h hb
    simpa using hne
