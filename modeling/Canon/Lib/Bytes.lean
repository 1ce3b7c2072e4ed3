import Mathlib.Data.List.Basic
import Mathlib.Algebra.Order.Ring.Nat

/-! # Bytes, little-endian words and length-prefixed records

    * `leBytes` / `ofLe`: fixed-width little-endian words,
    * `utf8` / `fromUtf8`: text as UTF-8 bytes and back,
    * `rawLines` / `bufLines`: the lines of a file of bytes,
    * `frame` / `scanRecords`: records behind a four-byte length, and the scan
      that reads them back until the first one that is not complete.
-/

abbrev Bytes := List UInt8

/-! ### Little-endian words -/

/-- The lowest `width` bytes of `n`, least significant first. -/
def leBytes : (width n : Nat) → Bytes
  | 0, _ => []
  | width + 1, n => UInt8.ofNat (n % 256) :: leBytes width (n / 256)

/-- The number a little-endian byte string stands for. -/
def ofLe : Bytes → Nat
  | [] => 0
  | b :: bs => b.toNat + 256 * ofLe bs

@[simp] theorem leBytes_length (width n : Nat) : (leBytes width n).length = width := by
  induction width generalizing n with
  | zero => rfl
  | succ width ih => simp [leBytes, ih]

theorem ofLe_leBytes (width n : Nat) : ofLe (leBytes width n) = n % 256 ^ width := by
  induction width generalizing n with
  | zero => simp [leBytes, ofLe, Nat.mod_one]
  | succ width ih =>
    have hbyte : (UInt8.ofNat (n % 256)).toNat = n % 256 := by
      simp
    simp only [leBytes, ofLe, ih, hbyte]
    rw [pow_succ', Nat.mod_mul]

theorem ofLe_leBytes_of_lt {width n : Nat} (h : n < 256 ^ width) :
    ofLe (leBytes width n) = n := by
  rw [ofLe_leBytes, Nat.mod_eq_of_lt h]

/-! ### UTF-8 -/

/-- The UTF-8 bytes of a text. -/
def utf8 (s : List Char) : Bytes := s.flatMap String.utf8EncodeChar

/-- The text a byte string encodes, when it is valid UTF-8. -/
def fromUtf8 (bs : Bytes) : Option (List Char) :=
  (ByteArray.utf8Decode? bs.toByteArray).map Array.toList

@[simp] theorem fromUtf8_utf8 (s : List Char) : fromUtf8 (utf8 s) = some s := by
  have hdec := List.utf8Decode?_utf8Encode (l := s)
  simp only [List.utf8Encode] at hdec
  simp [fromUtf8, utf8, hdec]

/-- A byte string that decodes is the encoding of what it decodes to. -/
theorem utf8_of_fromUtf8 {bs : Bytes} {s : List Char} (h : fromUtf8 bs = some s) :
    utf8 s = bs := by
  simp only [fromUtf8, Option.map_eq_some_iff] at h
  obtain ⟨cs, hcs, rfl⟩ := h
  have hsome : (ByteArray.utf8Decode? bs.toByteArray).isSome := by rw [hcs]; rfl
  have henc := ByteArray.utf8Encode_get_utf8Decode? (b := bs.toByteArray) (h := hsome)
  simp only [hcs, Option.get_some, List.utf8Encode] at henc
  have hdata := congrArg (fun b : ByteArray => b.data.toList) henc
  simpa [utf8] using hdata

/-- The number of bytes of a text. -/
def utf8Len (s : List Char) : Nat := (utf8 s).length

@[simp] theorem utf8_nil : utf8 [] = [] := rfl

theorem utf8_append (s t : List Char) : utf8 (s ++ t) = utf8 s ++ utf8 t := by
  simp [utf8]

theorem utf8Len_append (s t : List Char) : utf8Len (s ++ t) = utf8Len s + utf8Len t := by
  simp [utf8Len, utf8_append]

theorem utf8Len_eq_zero {s : List Char} : utf8Len s = 0 ↔ s = [] := by
  cases s with
  | nil => simp [utf8Len]
  | cons c s =>
    have hpos : 0 < c.utf8Size := Char.utf8Size_pos c
    simp [utf8Len, utf8, String.length_utf8EncodeChar, Nat.ne_of_gt hpos]

theorem utf8_toList (s : String) : utf8 s.toList = s.toByteArray.data.toList := by
  rw [← String.utf8Encode_toList]
  simp [utf8, List.utf8Encode]

theorem utf8Len_toList (s : String) : utf8Len s.toList = s.utf8ByteSize := by
  rw [utf8Len, utf8_toList, ← String.size_toByteArray]
  rfl

/-! ### Cutting encoded texts -/

/-- A byte string that continues a text at the start of a character cuts the text there. -/
theorem utf8_eq_append_first {s : List Char} {a b : Bytes} (h : utf8 s = a ++ b)
    (hb : ∀ c ∈ b.head?, c.IsUTF8FirstByte) :
    ∃ x y, s = x ++ y ∧ utf8 x = a ∧ utf8 y = b := by
  induction s generalizing a with
  | nil =>
    obtain ⟨rfl, rfl⟩ := List.append_eq_nil_iff.mp h.symm
    exact ⟨[], [], rfl, rfl, rfl⟩
  | cons c s ih =>
    have hcons : utf8 (c :: s) = String.utf8EncodeChar c ++ utf8 s := by simp [utf8]
    rw [hcons] at h
    -- Either the cut is behind the first character, or inside it.
    rcases List.append_eq_append_iff.mp h with ⟨a', rfl, hs⟩ | ⟨b', henc, hb'⟩
    · obtain ⟨x, y, rfl, hx, hy⟩ := ih hs
      exact ⟨c :: x, y, rfl, by simp [utf8, ← hx], hy⟩
    · cases b' with
      | nil => exact ⟨[c], s, rfl, by simpa [utf8] using henc, by simpa using hb'.symm⟩
      | cons b₀ b' =>
        cases a with
        | nil => exact ⟨[], c :: s, rfl, rfl, by rw [hcons, hb', henc]; simp⟩
        | cons a₀ a =>
          -- A byte inside a character is no first byte.
          have hfirst : b₀.IsUTF8FirstByte := hb b₀ (by simp [hb'])
          have hi : (a₀ :: a).length < (String.utf8EncodeChar c).length := by
            rw [henc]; simp
          have hget : (String.utf8EncodeChar c)[(a₀ :: a).length] = b₀ := by
            simp [henc]
          rw [← hget, UInt8.isUTF8FirstByte_getElem_utf8EncodeChar] at hfirst
          simp at hfirst

theorem utf8EncodeChar_append_inj {c d : Char} {x y : Bytes}
    (h : String.utf8EncodeChar c ++ x = String.utf8EncodeChar d ++ y) : c = d ∧ x = y := by
  have hdec : ∀ (e : Char) (z : Bytes),
      ByteArray.utf8DecodeChar? (String.utf8EncodeChar e ++ z).toByteArray 0 = some e := by
    intro e z
    rw [List.toByteArray_append]
    exact ByteArray.utf8DecodeChar?_utf8EncodeChar_append
  have hcd : c = d := by
    have := hdec c x
    rw [h, hdec d y] at this
    exact (Option.some.inj this).symm
  subst hcd
  exact ⟨rfl, List.append_cancel_left h⟩

/-- A text whose bytes start with those of another text starts with that text. -/
theorem utf8_eq_append_utf8 {s t : List Char} {b : Bytes} (h : utf8 s = utf8 t ++ b) :
    ∃ y, s = t ++ y ∧ utf8 y = b := by
  induction t generalizing s with
  | nil => exact ⟨s, rfl, h⟩
  | cons c t ih =>
    have hcons : ∀ d r, utf8 (d :: r) = String.utf8EncodeChar d ++ utf8 r := by simp [utf8]
    cases s with
    | nil =>
      rw [hcons, utf8_nil] at h
      simp [String.utf8EncodeChar_ne_nil] at h
    | cons d s =>
      rw [hcons, hcons, List.append_assoc] at h
      obtain ⟨rfl, hrest⟩ := utf8EncodeChar_append_inj h
      obtain ⟨y, rfl, hy⟩ := ih hrest
      exact ⟨y, rfl, hy⟩

theorem fromUtf8_eq_some_iff {bs : Bytes} {s : List Char} : fromUtf8 bs = some s ↔ utf8 s = bs :=
  ⟨utf8_of_fromUtf8, fun h => by rw [← h, fromUtf8_utf8]⟩

/-- A text and more bytes decode when the bytes do. -/
theorem fromUtf8_utf8_append (t : List Char) (b : Bytes) :
    fromUtf8 (utf8 t ++ b) = (fromUtf8 b).map (t ++ ·) := by
  ext s
  simp only [Option.map_eq_some_iff, fromUtf8_eq_some_iff]
  constructor
  · intro h
    obtain ⟨y, rfl, hy⟩ := utf8_eq_append_utf8 h
    exact ⟨y, hy, rfl⟩
  · rintro ⟨y, rfl, rfl⟩
    exact utf8_append t y

/-- Bytes cut in front of a first byte decode when both parts do. -/
theorem fromUtf8_append_first {a b : Bytes} (hb : ∀ c ∈ b.head?, c.IsUTF8FirstByte) :
    fromUtf8 (a ++ b) = (fromUtf8 a).bind fun x => (fromUtf8 b).map (x ++ ·) := by
  ext s
  simp only [Option.bind_eq_some_iff, Option.map_eq_some_iff, fromUtf8_eq_some_iff]
  constructor
  · intro h
    obtain ⟨x, y, rfl, hx, hy⟩ := utf8_eq_append_first h hb
    exact ⟨x, hx, y, hy, rfl⟩
  · rintro ⟨x, rfl, y, rfl, rfl⟩
    exact utf8_append x y

/-! ### Lossy decoding -/

def isContinuation (b : UInt8) : Bool := 0x80 ≤ b && b ≤ 0xBF

/-- Whether `b` may follow the lead byte of a longer sequence. -/
def isSecond (lead b : UInt8) : Bool :=
  if lead = 0xE0 then 0xA0 ≤ b && b ≤ 0xBF
  else if lead = 0xED then 0x80 ≤ b && b ≤ 0x9F
  else if lead = 0xF0 then 0x90 ≤ b && b ≤ 0xBF
  else if lead = 0xF4 then 0x80 ≤ b && b ≤ 0x8F
  else isContinuation b

/-- How many bytes one replacement character stands for: the longest start of a
    sequence that could still have become a character. -/
def brokenLen : Bytes → Nat
  | lead :: second :: rest =>
    if 0xE0 ≤ lead && lead ≤ 0xF4 && isSecond lead second then
      match rest with
      | third :: _ => if 0xF0 ≤ lead && isContinuation third then 3 else 2
      | [] => 2
    else 1
  | _ => 1

/-- The first character and the number of its bytes. -/
def firstChar? (bs : Bytes) : Option (Char × Nat) :=
  (List.range' 1 4).findSome? fun n =>
    match fromUtf8 (bs.take n) with
    | some [c] => some (c, n)
    | _ => none

def lossyFuel : Nat → Bytes → List Char
  | 0, _ => []
  | _, [] => []
  | fuel + 1, bs =>
    match firstChar? bs with
    | some (c, n) => c :: lossyFuel fuel (bs.drop n)
    | none => '\uFFFD' :: lossyFuel fuel (bs.drop (brokenLen bs))

/-- The text of a byte string, with replacement characters where it is not valid
    UTF-8. -/
def fromUtf8Lossy (bs : Bytes) : List Char := (fromUtf8 bs).getD (lossyFuel bs.length bs)

/-! ### Lines -/

/-- What a file has behind its last line feed. -/
def lastPart (parts : List Bytes) : List Bytes :=
  match parts.getLast? with
  | some [] | none => []
  | some part => [part]

def rawLines (bs : Bytes) : List Bytes :=
  let parts := bs.splitOn 10
  parts.dropLast ++ lastPart parts

/-- The lines as a buffered reader returns them: a carriage return in front of the
    line feed is stripped, and a line that is not valid UTF-8 is an error. -/
def bufLines (bs : Bytes) : List (Option (List Char)) :=
  let parts := bs.splitOn 10
  let stripCr (line : Bytes) : Bytes := if line.getLast? = some 13 then line.dropLast else line
  (parts.dropLast.map stripCr ++ lastPart parts).map fromUtf8

/-- Every line of the file ends in a line feed. -/
def WholeLines (bs : Bytes) : Prop := bs = [] ∨ bs.getLast? = some 10

theorem bufLines_append {as : Bytes} (h : WholeLines as) (bs : Bytes) :
    bufLines (as ++ bs) = bufLines as ++ bufLines bs := by
  have hlast : ∀ (front parts : List Bytes), parts ≠ [] →
      lastPart (front ++ parts) = lastPart parts := by
    intro front parts hne
    simp only [lastPart, List.getLast?_append_of_ne_nil front hne]
  rcases h with rfl | h
  · rfl
  · obtain ⟨front, rfl⟩ : ∃ front, as = front ++ [10] := List.getLast?_eq_some_iff.mp h
    have hne : bs.splitOn 10 ≠ [] := List.splitOn_ne_nil _ _
    have hempty : ([] : Bytes).splitOn 10 = [[]] := rfl
    unfold bufLines
    dsimp only
    rw [List.append_assoc, List.singleton_append, List.splitOn_append_cons_self,
      List.splitOn_append_cons_self, hempty, List.dropLast_append_of_ne_nil hne,
      List.dropLast_concat, hlast _ _ hne, hlast _ [[]] (by simp)]
    simp [lastPart]

theorem WholeLines.append {as bs : Bytes} (ha : WholeLines as) (hb : WholeLines bs) :
    WholeLines (as ++ bs) := by
  rcases hb with rfl | hb
  · rw [List.append_nil]
    exact ha
  · right
    rw [List.getLast?_append, hb]
    rfl

/-- A line of a text file: a text without line feeds that does not end in a
    carriage return. -/
structure LogLine where
  text : List Char
  noFeed : (10 : UInt8) ∉ utf8 text
  noReturn : (utf8 text).getLast? ≠ some 13

/-- The file that has these lines, each behind it a line feed. -/
def fileOf (lines : List LogLine) : Bytes := lines.flatMap fun l => utf8 l.text ++ [10]

@[simp] theorem fileOf_nil : fileOf [] = [] := rfl

theorem fileOf_cons (l : LogLine) (lines : List LogLine) :
    fileOf (l :: lines) = utf8 l.text ++ 10 :: fileOf lines := by
  simp [fileOf]

theorem fileOf_append (as bs : List LogLine) : fileOf (as ++ bs) = fileOf as ++ fileOf bs := by
  simp [fileOf]

theorem splitOn_fileOf (lines : List LogLine) :
    (fileOf lines).splitOn 10 = lines.map (fun l => utf8 l.text) ++ [[]] := by
  induction lines with
  | nil => rfl
  | cons l lines ih =>
    have hno : ∀ b ∈ utf8 l.text, (b == (10 : UInt8)) = false := by
      intro b hb
      simp only [beq_eq_false_iff_ne]
      rintro rfl
      exact l.noFeed hb
    rw [fileOf_cons, List.splitOn, List.splitOnP_append_cons_of_forall_mem hno _ (by simp)]
    rw [List.splitOn] at ih
    rw [ih, List.map_cons, List.cons_append]

@[simp] theorem rawLines_fileOf (lines : List LogLine) :
    rawLines (fileOf lines) = lines.map (fun l => utf8 l.text) := by
  simp [rawLines, splitOn_fileOf, lastPart]

@[simp] theorem bufLines_fileOf (lines : List LogLine) :
    bufLines (fileOf lines) = lines.map (fun l => some l.text) := by
  simp only [bufLines, splitOn_fileOf, lastPart, List.dropLast_concat, List.getLast?_concat,
    List.append_nil, List.map_map]
  apply List.map_congr_left
  intro l _
  simp [l.noReturn]

theorem fileOf_eq_nil {lines : List LogLine} : fileOf lines = [] ↔ lines = [] := by
  cases lines with
  | nil => simp
  | cons l lines => simp [fileOf_cons]

/-! ### Length-prefixed records -/

/-- A record behind its length, a `u32`. -/
def frame (payload : Bytes) : Bytes := leBytes 4 payload.length ++ payload

@[simp] theorem frame_length (payload : Bytes) :
    (frame payload).length = 4 + payload.length := by
  simp [frame]

/-- The complete records of a byte string, front to back, up to the first
    length that the remaining bytes cannot satisfy.  Each record takes at least
    four bytes, so the length of the input is enough fuel. -/
def scanRecordsFuel : Nat → Bytes → List Bytes
  | 0, _ => []
  | fuel + 1, bs =>
    if bs.length < 4 then []
    else
      let len := ofLe (bs.take 4)
      let rest := bs.drop 4
      if rest.length < len then []
      else rest.take len :: scanRecordsFuel fuel (rest.drop len)

def scanRecords (bs : Bytes) : List Bytes := scanRecordsFuel bs.length bs

theorem scanRecordsFuel_eq {fuel fuel' : Nat} {bs : Bytes} (h : bs.length ≤ fuel)
    (h' : bs.length ≤ fuel') : scanRecordsFuel fuel bs = scanRecordsFuel fuel' bs := by
  induction fuel generalizing fuel' bs with
  | zero =>
    have hnil : bs = [] := List.eq_nil_of_length_eq_zero (by omega)
    subst hnil
    cases fuel' <;> simp [scanRecordsFuel]
  | succ fuel ih =>
    cases fuel' with
    | zero =>
      have hnil : bs = [] := List.eq_nil_of_length_eq_zero (by omega)
      simp [hnil, scanRecordsFuel]
    | succ fuel' =>
      simp only [scanRecordsFuel]
      split
      · rfl
      · split
        · rfl
        · congr 1
          -- Four bytes are gone at least, so what is left is covered by both fuels.
          apply ih <;> (simp only [List.length_drop]; omega)

@[simp] theorem scanRecords_nil : scanRecords [] = [] := rfl

/-- Fewer than four bytes hold no record. -/
theorem scanRecords_of_short {bs : Bytes} (h : bs.length < 4) : scanRecords bs = [] := by
  unfold scanRecords
  cases bs.length with
  | zero => rfl
  | succ n => simp [scanRecordsFuel, h]

/-- A first record that is not complete ends the scan. -/
theorem scanRecords_of_incomplete {bs : Bytes} (h : bs.length < 4 + ofLe (bs.take 4)) :
    scanRecords bs = [] := by
  unfold scanRecords
  cases hlen : bs.length with
  | zero => rfl
  | succ n =>
    simp only [scanRecordsFuel, List.length_drop]
    split
    · rfl
    · rw [if_pos (by omega)]

/-- The scan reads back a framed record and goes on behind it. -/
theorem scanRecords_frame_append {payload : Bytes} (rest : Bytes)
    (h : payload.length < 2 ^ 32) :
    scanRecords (frame payload ++ rest) = payload :: scanRecords rest := by
  have hlen : ofLe (leBytes 4 payload.length) = payload.length :=
    ofLe_leBytes_of_lt (by simpa using h)
  have htake : (frame payload ++ rest).take 4 = leBytes 4 payload.length := by
    simp [frame]
  have hdrop : (frame payload ++ rest).drop 4 = payload ++ rest := by
    simp [frame]
  have hsize : (frame payload ++ rest).length = 3 + payload.length + rest.length + 1 := by
    simp; omega
  unfold scanRecords
  rw [hsize]
  simp only [scanRecordsFuel, hsize, htake, hdrop, hlen]
  rw [if_neg (by omega), if_neg (by simp)]
  simp only [List.take_left, List.drop_left]
  congr 1
  exact scanRecordsFuel_eq (by omega) le_rfl

/-- Records written one after the other are read back in order. -/
theorem scanRecords_frames {payloads : List Bytes} (rest : Bytes)
    (h : ∀ p ∈ payloads, p.length < 2 ^ 32) :
    scanRecords (payloads.flatMap frame ++ rest) = payloads ++ scanRecords rest := by
  induction payloads with
  | nil => simp
  | cons p ps ih =>
    rw [List.flatMap_cons, List.append_assoc,
      scanRecords_frame_append _ (h p (by simp)),
      ih (fun q hq => h q (by simp [hq])), List.cons_append]

/-- Cutting a sequence of records anywhere before its end loses a record. -/
theorem scanRecords_take_frames_lt {payloads : List Bytes} {k : Nat}
    (h : ∀ p ∈ payloads, p.length < 2 ^ 32) (hk : k < (payloads.flatMap frame).length) :
    (scanRecords ((payloads.flatMap frame).take k)).length < payloads.length := by
  induction payloads generalizing k with
  | nil => simp at hk
  | cons p ps ih =>
    rw [List.flatMap_cons] at hk ⊢
    -- The cut is behind the first record or inside it.
    by_cases hp : (frame p).length ≤ k
    · rw [List.take_append, List.take_of_length_le hp,
        scanRecords_frame_append _ (h p (by simp)), List.length_cons, List.length_cons]
      refine Nat.succ_lt_succ (ih (fun q hq => h q (by simp [hq])) ?_)
      rw [List.length_append] at hk
      omega
    -- The first record is not complete.
    · have hnone : scanRecords ((frame p ++ ps.flatMap frame).take k) = [] := by
        rw [List.take_append_of_le_length (by omega)]
        by_cases hshort : k < 4
        · exact scanRecords_of_short (by rw [List.length_take]; omega)
        · have hhead : ((frame p).take k).take 4 = leBytes 4 p.length := by
            rw [List.take_take, Nat.min_eq_left (by omega)]
            simp [frame]
          apply scanRecords_of_incomplete
          rw [hhead, ofLe_leBytes_of_lt (by simpa using h p (by simp)), List.length_take,
            ← frame_length]
          omega
      rw [hnone]
      simp
