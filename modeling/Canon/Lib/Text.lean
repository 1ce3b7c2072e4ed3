import Mathlib.Algebra.GroupWithZero.Nat
import Mathlib.Data.List.DropRight

/-! # Text operations of the host language

    A text is a list of Unicode scalar values.  The operations are those of the
    host language's string slices: trimming by the Unicode property `White_Space`,
    `lines` (which strips one carriage return in front of a line feed and has no
    entry for an empty last line), prefix stripping.
-/

abbrev Text := List Char

/-- Named, so that it is found under one name wherever texts are compared. -/
instance Text.instLawfulBEq : LawfulBEq Text := inferInstance

namespace Text

/-- Unicode `White_Space`. -/
def isWhitespace (c : Char) : Bool :=
  let n := c.toNat
  (9 ≤ n && n ≤ 13) || n == 32 || n == 0x85 || n == 0xA0 || n == 0x1680 ||
    (0x2000 ≤ n && n ≤ 0x200A) || n == 0x2028 || n == 0x2029 || n == 0x202F ||
    n == 0x205F || n == 0x3000

variable (s : Text)

def trimStart : Text := s.dropWhile isWhitespace

def trimEnd : Text := s.rdropWhile isWhitespace

def trim : Text := trimStart (trimEnd s)

/-- `Some` of the rest when `s` starts with `p`. -/
def stripPrefix? (p s : Text) : Option Text :=
  if p.isPrefixOf s then some (s.drop p.length) else none

/-- One carriage return at the end of a line is not part of it. -/
def stripCr (l : Text) : Text := if l.getLast? = some '\r' then l.dropLast else l

/-- The lines of a text. -/
def lines : List Text :=
  let parts := s.splitOn '\n'
  parts.dropLast.map stripCr ++
    (match parts.getLast? with
      | some [] | none => []
      | some l => [l])

/-- The position of the first occurrence of `p`. -/
def find? (p : Text) : Text → Option Nat
  | [] => if p = [] then some 0 else none
  | c :: s => if p.isPrefixOf (c :: s) then some 0 else (find? p s).map (· + 1)

/-- The position of the last occurrence of `p`. -/
def rfind? (p : Text) : Text → Option Nat
  | [] => if p = [] then some 0 else none
  | c :: s =>
    match rfind? p s with
    | some i => some (i + 1)
    | none => if p.isPrefixOf (c :: s) then some 0 else none

def contains (p s : Text) : Bool := (find? p s).isSome

/-- String constants stand for the texts of their characters. -/
instance : Coe String Text := ⟨String.toList⟩

def startsWith (p s : Text) : Bool := p.isPrefixOf s

def endsWith (p s : Text) : Bool := p.isSuffixOf s

/-- Lower case on `A` to `Z`.  That the code lowers other letters too is left out; of these
    only the Kelvin sign and the dotted capital I become texts with a letter of ASCII. -/
def toLowercase : Text := s.map Char.toLower

/-- The pieces between runs of white space. -/
def splitWhitespace : List Text := (s.splitOnP isWhitespace).filter (· ≠ [])

/-- The text before and after the first occurrence of `p`. -/
def splitOnce? (p s : Text) : Option (Text × Text) :=
  (find? p s).map fun i => (s.take i, s.drop (i + p.length))

/-- The parts of a path, cut at `::` from the left. -/
def splitPath : Text → List Text
  | [] => [[]]
  | ':' :: ':' :: rest => [] :: splitPath rest
  | c :: rest =>
    match splitPath rest with
    | [] => [[c]]
    | part :: parts => (c :: part) :: parts

/-- `s` without the characters `c` at its end. -/
def trimEndMatches (c : Char) (s : Text) : Text := s.rdropWhile (· == c)

/-- `s` without the characters `c` at either end. -/
def trimMatches (c : Char) (s : Text) : Text := (trimEndMatches c s).dropWhile (· == c)

/-- The texts joined with `sep` between them. -/
def join (sep : Text) (parts : List Text) : Text := sep.intercalate parts

/-- The length in UTF-8 bytes. -/
def byteLen : Nat := (s.map Char.utf8Size).sum

/-- The first `n` bytes; nothing when they end inside a character. -/
def takeBytes? : Nat → Text → Option Text
  | 0, _ => some []
  | _ + 1, [] => none
  | n + 1, c :: s =>
    if c.utf8Size ≤ n + 1 then (takeBytes? (n + 1 - c.utf8Size) s).map (c :: ·) else none

/-- A number in decimal digits. -/
def ofNat (n : Nat) : Text := Nat.toDigits 10 n

def ofBool (b : Bool) : Text := if b then "true" else "false"

/-! ### Trimming -/

@[simp] theorem trimEnd_nil : trimEnd [] = [] := by simp [trimEnd]

@[simp] theorem trimStart_nil : trimStart [] = [] := rfl

@[simp] theorem trim_nil : trim [] = [] := rfl

theorem trimEnd_concat (c : Char) :
    trimEnd (s ++ [c]) = if isWhitespace c then trimEnd s else s ++ [c] := by
  simp [trimEnd, List.rdropWhile_concat]

theorem trimEnd_eq_self_iff {s : Text} :
    trimEnd s = s ↔ ∀ h : s ≠ [], isWhitespace (s.getLast h) = false := by
  simp [trimEnd, List.rdropWhile_eq_self_iff]

/-- Trimming the end looks at the last character that is not white space, so a
    prefix stays as it is as soon as something of the rest remains. -/
theorem trimEnd_append {s t : Text} (h : trimEnd t ≠ []) :
    trimEnd (s ++ t) = s ++ trimEnd t := by
  induction t using List.reverseRecOn with
  | nil => simp at h
  | append_singleton t c ih =>
    rw [← List.append_assoc, trimEnd_concat, trimEnd_concat]
    rw [trimEnd_concat] at h
    by_cases hc : isWhitespace c
    · simp only [hc, if_true] at h ⊢
      exact ih h
    · simp [hc]

theorem trimEnd_append_of_nil {s t : Text} (h : trimEnd t = []) :
    trimEnd (s ++ t) = trimEnd s := by
  induction t using List.reverseRecOn with
  | nil => simp
  | append_singleton t c ih =>
    rw [trimEnd_concat] at h
    by_cases hc : isWhitespace c
    · simp only [hc, if_true] at h
      rw [← List.append_assoc, trimEnd_concat, if_pos hc, ih h]
    · simp [hc] at h

/-- A first character that is not white space survives trimming. -/
theorem trimEnd_cons {c : Char} {s : Text} (hc : isWhitespace c = false) :
    trimEnd (c :: s) = c :: trimEnd s := by
  by_cases h : trimEnd s = []
  · have happ : trimEnd ([c] ++ s) = trimEnd [c] := trimEnd_append_of_nil h
    rw [List.singleton_append] at happ
    rw [happ, h]
    simp [trimEnd, List.rdropWhile_singleton, hc]
  · have happ : trimEnd ([c] ++ s) = [c] ++ trimEnd s := trimEnd_append h
    simpa using happ

theorem trimStart_cons {c : Char} {s : Text} (hc : isWhitespace c = false) :
    trimStart (c :: s) = c :: s := by
  simp [trimStart, hc]

theorem trim_cons {c : Char} {s : Text} (hc : isWhitespace c = false) :
    trim (c :: s) = c :: trimEnd s := by
  rw [trim, trimEnd_cons hc, trimStart_cons hc]

/-- The carriage return that `lines` strips is white space anyway. -/
theorem trimEnd_stripCr : trimEnd (stripCr s) = trimEnd s := by
  unfold stripCr
  split
  · rename_i h
    obtain ⟨t, rfl⟩ := List.getLast?_eq_some_iff.mp h
    rw [List.dropLast_concat, trimEnd_concat, if_pos (by decide)]
  · rfl

theorem trim_stripCr : trim (stripCr s) = trim s := by
  rw [trim, trimEnd_stripCr, trim]

/-! ### Prefixes -/

@[simp] theorem stripPrefix?_append (p s : Text) : stripPrefix? p (p ++ s) = some s := by
  simp [stripPrefix?, List.isPrefixOf_iff_prefix]

/-- Texts that differ early on. -/
theorem isPrefixOf_append_eq_false {p q : Text} (n : Nat) (hp : n ≤ p.length) (hq : n ≤ q.length)
    (h : p.take n ≠ q.take n) : p.isPrefixOf (q ++ s) = false := by
  cases hpre : p.isPrefixOf (q ++ s) with
  | false => rfl
  | true =>
    obtain ⟨t, ht⟩ := List.isPrefixOf_iff_prefix.mp hpre
    have htake := congrArg (List.take n) ht
    rw [List.take_append_of_le_length hp, List.take_append_of_le_length hq] at htake
    exact absurd htake h

theorem stripPrefix?_eq_none {p s : Text} (h : p.isPrefixOf s = false) :
    stripPrefix? p s = none := by
  simp [stripPrefix?, h]

/-! ### Lines -/

/-- Joining lines with line feeds and splitting again gives the lines, up to the
    carriage return stripped in front of a line feed. -/
theorem lines_intercalate {ls : List Text} {l : Text} (hl : l ≠ [])
    (hnl : ∀ m ∈ ls, '\n' ∉ m) (hnl' : '\n' ∉ l) :
    lines (['\n'].intercalate (ls ++ [l])) = ls.map stripCr ++ [l] := by
  have hsplit : (['\n'].intercalate (ls ++ [l])).splitOn '\n' = ls ++ [l] := by
    apply List.splitOn_intercalate
    · intro m hm
      rcases List.mem_append.mp hm with hm | hm
      · exact hnl m hm
      · rw [List.mem_singleton] at hm
        rw [hm]
        exact hnl'
    · simp
  cases l with
  | nil => exact absurd rfl hl
  | cons c l => simp [lines, hsplit]

end Text
