import Canon.Lib.PathParts
import Canon.Lib.Words
import Canon.Ir.Arena

/-! # Interning the paths of the compiler

    `intern_path` of the capture's `assembler.rs`.  A path is brought into the form of the
    table: `$crate` and generic arguments go, and a text that is no path even then is
    sanitised segment by segment.  What the table itself rejects is sanitised too, or stands
    for `invalid_path`.  The record the code writes of such a path is left out.
-/

namespace Canon.Capture

open Canon.Ir

/-! ### Generic arguments -/

inductive GenericsError where
  | unmatchedClose
  | unterminated
deriving DecidableEq, Repr

/-- The loop of `strip_generic_args`, inside `depth` brackets. -/
def stripGenericsFrom : Nat → Text → Except GenericsError Text
  | depth, [] => if depth ≠ 0 then .error .unterminated else .ok []
  | depth, c :: rest =>
    if c = '<' then stripGenericsFrom (depth + 1) rest
    else if c = '>' then
      if depth = 0 then .error .unmatchedClose else stripGenericsFrom (depth - 1) rest
    else if depth = 0 then (stripGenericsFrom depth rest).map (c :: ·)
    else stripGenericsFrom depth rest

def stripGenericArgs (raw : Text) : Except GenericsError Text := stripGenericsFrom 0 raw

def stripGenericsLossyFrom : Nat → Text → Text
  | _, [] => []
  | depth, c :: rest =>
    if c = '<' then stripGenericsLossyFrom (depth + 1) rest
    else if c = '>' then stripGenericsLossyFrom (depth - 1) rest
    else if depth = 0 then c :: stripGenericsLossyFrom depth rest
    else stripGenericsLossyFrom depth rest

def stripGenericArgsLossy (raw : Text) : Text := stripGenericsLossyFrom 0 raw

/-! ### Fragments -/

/-- `$crate::` in front is `crate::`. -/
def replaceCrate (trimmed : Text) : Text :=
  match Text.stripPrefix? "$crate::" trimmed with
  | some rest => "crate::".toList ++ rest
  | none => trimmed

def isWordChar (c : Char) : Bool := c.isAlphanum || c == '_'

def cleanSegment (seg : Text) : Text := seg.map fun c => if isWordChar c then c else '_'

def sanitizePathFragment (raw : Text) : Text :=
  let trimmed := Text.trim raw
  if trimmed = [] then "invalid_path".toList
  else
    let out := stripGenericArgsLossy (replaceCrate trimmed)
    let cleaned := Text.join "::"
      (((Text.splitPath out).map cleanSegment).filter fun seg => seg ≠ [])
    if cleaned = [] then "invalid_path".toList else cleaned

inductive FragmentError where
  | empty
  | generics (e : GenericsError)
  | emptySegment
  | emptyPath
  | invalid
deriving DecidableEq, Repr

/-- The last check of a fragment. -/
def invalidFragment (out : Text) : Bool :=
  decide ('$' ∈ out) || decide ('\x7b' ∈ out) || decide ('\x7d' ∈ out) ||
    Text.contains "=>" out || decide ('!' ∈ out) || decide ('(' ∈ out) || decide (')' ∈ out) ||
    Text.startsWith ":" out || Text.endsWith ":" out

/-- The fragment and what is wrong with it. -/
def checkFragment (raw : Text) : Text × List FragmentError :=
  let trimmed := Text.trim raw
  let replaced := replaceCrate trimmed
  let (stripped, generics) := match stripGenericArgs replaced with
    | .ok v => (v, [])
    | .error e => (stripGenericArgsLossy replaced, [FragmentError.generics e])
  let parts := Text.splitPath stripped
  let out := Text.join "::" (parts.filter fun seg => seg ≠ [])
  (out, (if trimmed = [] then [.empty] else []) ++ generics ++
    ((parts.filter fun seg => seg = []).map fun _ => .emptySegment) ++
    (if out = [] then [.emptyPath] else []) ++ if invalidFragment out then [.invalid] else [])

/-- `canonicalize_path_fragment`, which never fails. -/
def canonicalizePathFragment (raw : Text) : Text :=
  let (out, errors) := checkFragment raw
  if errors = [] then out else sanitizePathFragment raw

def internPath {Other : Type} (ir : CanonIR Other) (raw : Text) :
    CanonIR Other × Except Text PathId :=
  let path := canonicalizePathFragment raw
  match ir.internPath path with
  | (ir, .ok id) => (ir, .ok id)
  | (ir, .error _) =>
    let sanitized := sanitizePathFragment raw
    if sanitized ≠ path then
      match ir.internPath sanitized with
      | (ir, .ok id) => (ir, .ok id)
      | (ir, .error _) => ir.internPath "invalid_path".toList
    else ir.internPath "invalid_path".toList

/-! ### Clean paths -/

/-- What both checks ask of a path besides the names of its segments. -/
structure Clean (t : Text) : Prop where
  nonempty : t ≠ []
  chars : ∀ c ∈ t, c ∉ ['$', '<', '>', '\x7b', '\x7d', '!', '(', ')']
  arrow : Text.contains "=>" t = false
  start : t.head? ≠ some ':'
  stop : t.getLast? ≠ some ':'
  parts : ∀ p ∈ Text.splitPath t, p ≠ []

theorem startsWith_colon (t : Text) : Text.startsWith ":" t = true ↔ t.head? = some ':' := by
  rw [Text.startsWith_iff]
  cases t with
  | nil => simp
  | cons c t => simp [List.cons_prefix_cons, eq_comm]

theorem endsWith_colon (t : Text) : Text.endsWith ":" t = true ↔ t.getLast? = some ':' := by
  rw [Text.endsWith, List.isSuffixOf_iff_suffix, List.getLast?_eq_some_iff]
  constructor
  · intro ⟨front, h⟩
    exact ⟨front, h.symm⟩
  · intro ⟨front, h⟩
    exact ⟨front, h.symm⟩

section Strip

/-- What is left of a text has no bracket. -/
theorem stripGenerics_spec : ∀ {raw out : Text} {depth : Nat},
    stripGenericsFrom depth raw = .ok out → out.Sublist raw ∧ '<' ∉ out ∧ '>' ∉ out
  | [], out, depth, h => by
    rw [stripGenericsFrom] at h
    by_cases hd : depth ≠ 0
    · rw [if_pos hd] at h
      cases h
    · rw [if_neg hd] at h
      cases h
      exact ⟨.refl _, List.not_mem_nil, List.not_mem_nil⟩
  | d :: rest, out, depth, h => by
    have hskip : ∀ {depth'}, stripGenericsFrom depth' rest = .ok out →
        out.Sublist (d :: rest) ∧ '<' ∉ out ∧ '>' ∉ out := by
      intro depth' hrest
      obtain ⟨hsub, hnot⟩ := stripGenerics_spec hrest
      exact ⟨hsub.cons d, hnot⟩
    rw [stripGenericsFrom] at h
    by_cases hopen : d = '<'
    · rw [if_pos hopen] at h
      exact hskip h
    · rw [if_neg hopen] at h
      by_cases hclose : d = '>'
      · rw [if_pos hclose] at h
        by_cases hd : depth = 0
        · rw [if_pos hd] at h
          cases h
        · rw [if_neg hd] at h
          exact hskip h
      · rw [if_neg hclose] at h
        by_cases hd : depth = 0
        · rw [if_pos hd] at h
          cases hrest : stripGenericsFrom depth rest with
          | error e =>
            rw [hrest] at h
            cases h
          | ok v =>
            rw [hrest] at h
            cases h
            obtain ⟨hsub, hless, hgreater⟩ := stripGenerics_spec hrest
            rw [List.mem_cons, List.mem_cons, not_or, not_or]
            exact ⟨hsub.cons_cons d, ⟨Ne.symm hopen, hless⟩, Ne.symm hclose, hgreater⟩
        · rw [if_neg hd] at h
          exact hskip h

theorem stripGenericArgs_eq_self : ∀ {t : Text}, '<' ∉ t → '>' ∉ t →
    stripGenericArgs t = .ok t
  | [], _, _ => rfl
  | c :: t, hopen, hclose => by
    rw [List.mem_cons, not_or] at hopen hclose
    have hrest : stripGenericsFrom 0 t = .ok t := stripGenericArgs_eq_self hopen.2 hclose.2
    rw [stripGenericArgs, stripGenericsFrom, if_neg (Ne.symm hopen.1), if_neg (Ne.symm hclose.1),
      if_pos rfl, hrest]
    rfl

end Strip

/-! ### Clean texts are left as they are -/

theorem invalidFragment_eq_false {t : Text} : invalidFragment t = false ↔
    (∀ c ∈ t, c ∉ ['$', '\x7b', '\x7d', '!', '(', ')']) ∧ Text.contains "=>" t = false ∧
      t.head? ≠ some ':' ∧ t.getLast? ≠ some ':' := by
  have hchars : (∀ c ∈ t, c ∉ ['$', '\x7b', '\x7d', '!', '(', ')']) ↔ '$' ∉ t ∧ '\x7b' ∉ t ∧
      '\x7d' ∉ t ∧ '!' ∉ t ∧ '(' ∉ t ∧ ')' ∉ t := by
    simp only [List.mem_cons, List.not_mem_nil, or_false, not_or]
    constructor
    · intro h
      exact ⟨fun hc => (h _ hc).1 rfl, fun hc => (h _ hc).2.1 rfl, fun hc => (h _ hc).2.2.1 rfl,
        fun hc => (h _ hc).2.2.2.1 rfl, fun hc => (h _ hc).2.2.2.2.1 rfl,
        fun hc => (h _ hc).2.2.2.2.2 rfl⟩
    · intro ⟨h₁, h₂, h₃, h₄, h₅, h₆⟩ c hc
      refine ⟨?_, ?_, ?_, ?_, ?_, ?_⟩ <;> rintro rfl <;> contradiction
  rw [hchars, ne_eq, ne_eq, ← startsWith_colon, ← endsWith_colon, invalidFragment]
  simp only [Bool.or_eq_false_iff, decide_eq_false_iff_not, Bool.not_eq_true]
  tauto

/-- Nothing is wrong with a clean text without white space at its ends. -/
theorem checkFragment_of_clean {t : Text} (h : Clean t) (htrim : Text.trim t = t) :
    checkFragment t = (t, []) := by
  have hcrate : replaceCrate t = t := by
    rw [replaceCrate, Text.stripPrefix?, if_neg]
    intro hpre
    obtain ⟨rest, hrest⟩ := List.isPrefixOf_iff_prefix.mp hpre
    have hdollar : '$' ∈ t := by
      rw [← hrest]
      exact List.mem_cons_self
    exact h.chars '$' hdollar (by decide)
  have hstrip : stripGenericArgs t = .ok t :=
    stripGenericArgs_eq_self (fun hc => h.chars _ hc (by decide))
      (fun hc => h.chars _ hc (by decide))
  have hall : (Text.splitPath t).filter (fun seg => seg ≠ []) = Text.splitPath t := by
    apply List.filter_eq_self.mpr
    intro p hp
    exact decide_eq_true (h.parts p hp)
  have hnone : (Text.splitPath t).filter (fun seg => seg = []) = [] := by
    apply List.filter_eq_nil_iff.mpr
    intro p hp
    simpa using h.parts p hp
  have hvalid : invalidFragment t = false := by
    apply invalidFragment_eq_false.mpr
    refine ⟨?_, h.arrow, h.start, h.stop⟩
    intro c hc hmem
    apply h.chars c hc
    revert hmem
    simp only [List.mem_cons, List.not_mem_nil, or_false]
    tauto
  rw [checkFragment, htrim, hcrate, hstrip]
  simp only [hall, hnone, Text.join_splitPath, hvalid, h.nonempty, if_false, List.map_nil]
  rfl

theorem canonicalize_of_clean {t : Text} (h : Clean t) (htrim : Text.trim t = t) :
    canonicalizePathFragment t = t := by
  rw [canonicalizePathFragment, checkFragment_of_clean h htrim]
  rfl

/-! ### What the fragments are -/

/-- A fragment with which nothing is wrong is what the brackets leave of it. -/
theorem checkFragment_ok {raw out : Text} (h : checkFragment raw = (out, [])) :
    stripGenericArgs (replaceCrate (Text.trim raw)) = .ok out ∧
      (∀ p ∈ Text.splitPath out, p ≠ []) ∧ out ≠ [] ∧ invalidFragment out = false := by
  rw [checkFragment] at h
  cases hstrip : stripGenericArgs (replaceCrate (Text.trim raw)) with
  | error e =>
    rw [hstrip] at h
    have herrors := congrArg Prod.snd h
    simp at herrors
  | ok v =>
    rw [hstrip] at h
    obtain ⟨hout, herrors⟩ := Prod.mk.inj h
    simp only [List.append_nil, List.append_eq_nil_iff, List.map_eq_nil_iff] at herrors
    obtain ⟨⟨⟨-, hparts⟩, hempty⟩, hvalid⟩ := herrors
    have hall : ∀ p ∈ Text.splitPath v, p ≠ [] := by
      intro p hp
      have := List.filter_eq_nil_iff.mp hparts p hp
      simpa using this
    have hjoin : Text.join "::" ((Text.splitPath v).filter fun seg => seg ≠ []) = v := by
      rw [List.filter_eq_self.mpr fun p hp => decide_eq_true (hall p hp), Text.join_splitPath]
    rw [hjoin] at hout hempty hvalid
    subst hout
    refine ⟨rfl, hall, ?_, ?_⟩
    · intro hnil
      rw [if_pos hnil] at hempty
      cases hempty
    · cases hv : invalidFragment v with
      | false => rfl
      | true =>
        rw [hv, if_pos rfl] at hvalid
        cases hvalid

theorem clean_of_checkFragment {raw out : Text} (h : checkFragment raw = (out, [])) :
    Clean out := by
  obtain ⟨hstrip, hall, hne, hok⟩ := checkFragment_ok h
  obtain ⟨hchars, harrow, hstart, hstop⟩ := invalidFragment_eq_false.mp hok
  obtain ⟨-, hopen, hclose⟩ := stripGenerics_spec hstrip
  refine ⟨hne, ?_, harrow, hstart, hstop, hall⟩
  intro c hc hmem
  simp only [List.mem_cons, List.not_mem_nil, or_false] at hmem
  rcases hmem with rfl | rfl | rfl | hmem
  · exact hchars _ hc (by decide)
  · exact hopen hc
  · exact hclose hc
  · apply hchars c hc
    simp only [List.mem_cons, List.not_mem_nil, or_false]
    exact .inr hmem

theorem isWordChar_range {c : Char} (h : isWordChar c = true) :
    48 ≤ c.toNat ∧ c.toNat ≤ 57 ∨ 65 ≤ c.toNat ∧ c.toNat ≤ 90 ∨ c.toNat = 95 ∨
      97 ≤ c.toNat ∧ c.toNat ≤ 122 := by
  delta isWordChar Char.isAlphanum Char.isAlpha Char.isUpper Char.isLower Char.isDigit at h
  simp only [Bool.or_eq_true, Bool.and_eq_true, decide_eq_true_eq, beq_iff_eq, ge_iff_le,
    UInt32.le_iff_toNat_le] at h
  have hn : c.toNat = c.val.toNat := rfl
  rcases h with ((h | h) | h) | h
  · have hupper : 65 ≤ c.val.toNat ∧ c.val.toNat ≤ 90 := h
    omega
  · have hlower : 97 ≤ c.val.toNat ∧ c.val.toNat ≤ 122 := h
    omega
  · have hdigit : 48 ≤ c.val.toNat ∧ c.val.toNat ≤ 57 := h
    omega
  · subst h
    decide

theorem isWordChar_clean {c : Char} (h : isWordChar c = true) :
    c ∉ ['$', '<', '>', '\x7b', '\x7d', '!', '(', ')'] ∧ c ≠ ':' ∧ c ≠ '=' ∧
      Text.isWhitespace c = false := by
  have hne : ∀ d : Char, isWordChar d = false → c ≠ d := by
    intro d hd heq
    rw [heq, hd] at h
    cases h
  refine ⟨?_, hne _ (by decide), hne _ (by decide), ?_⟩
  · simp only [List.mem_cons, List.not_mem_nil, or_false, not_or]
    exact ⟨hne _ (by decide), hne _ (by decide), hne _ (by decide), hne _ (by decide),
      hne _ (by decide), hne _ (by decide), hne _ (by decide), hne _ (by decide)⟩
  · have hrange := isWordChar_range h
    simp only [Text.isWhitespace, Bool.or_eq_false_iff, Bool.and_eq_false_iff,
      decide_eq_false_iff_not, beq_eq_false_iff_ne]
    omega

theorem mem_join {sep : Text} {c : Char} : ∀ {parts : List Text}, c ∈ Text.join sep parts →
    c ∈ sep ∨ ∃ p ∈ parts, c ∈ p
  | [], h => absurd h List.not_mem_nil
  | [p], h => by
    rw [Text.join_singleton] at h
    exact .inr ⟨p, List.mem_cons_self, h⟩
  | p :: q :: parts, h => by
    rw [Text.join_cons _ _ (List.cons_ne_nil q parts), List.mem_append, List.mem_append] at h
    rcases h with h | h | h
    · exact .inr ⟨p, List.mem_cons_self, h⟩
    · exact .inl h
    · rcases mem_join h with h | ⟨r, hr, h⟩
      · exact .inl h
      · exact .inr ⟨r, List.mem_cons_of_mem p hr, h⟩

/-- A joined path begins and ends like its outer segments. -/
theorem ends_join : ∀ {segs : List Text}, segs ≠ [] → (∀ seg ∈ segs, seg ≠ []) →
    (∃ seg ∈ segs, ∃ c ∈ seg, (Text.join "::" segs).head? = some c) ∧
      ∃ seg ∈ segs, ∃ c ∈ seg, (Text.join "::" segs).getLast? = some c
  | [], h, _ => absurd rfl h
  | [seg], _, h => by
    have hseg := h seg List.mem_cons_self
    rw [Text.join_singleton]
    exact ⟨⟨seg, List.mem_cons_self, seg.head hseg, List.head_mem hseg,
        List.head?_eq_some_head hseg⟩,
      ⟨seg, List.mem_cons_self, seg.getLast hseg, List.getLast_mem hseg,
        List.getLast?_eq_some_getLast hseg⟩⟩
  | seg :: next :: segs, _, h => by
    have hseg := h seg List.mem_cons_self
    obtain ⟨-, last, hlast, c, hc, hend⟩ := @ends_join (next :: segs) (List.cons_ne_nil _ _)
      fun s hs => h s (List.mem_cons_of_mem seg hs)
    rw [Text.join_cons _ _ (List.cons_ne_nil next segs)]
    refine ⟨⟨seg, List.mem_cons_self, seg.head hseg, List.head_mem hseg, ?_⟩,
      ⟨last, List.mem_cons_of_mem seg hlast, c, hc, ?_⟩⟩
    · rw [List.head?_append, List.head?_eq_some_head hseg]
      rfl
    · rw [List.getLast?_append, List.getLast?_append, hend]
      rfl

/-- Segments of word characters. -/
theorem clean_join {segs : List Text} (hne : segs ≠ [])
    (h : ∀ seg ∈ segs, seg ≠ [] ∧ ∀ c ∈ seg, isWordChar c = true) :
    Clean (Text.join "::" segs) ∧ Text.trim (Text.join "::" segs) = Text.join "::" segs := by
  obtain ⟨⟨first, hfirst, a, ha, hhead⟩, ⟨last, hlast, b, hb, hend⟩⟩ :=
    ends_join hne fun seg hseg => (h seg hseg).1
  obtain ⟨-, hacolon, -, haspace⟩ := isWordChar_clean ((h first hfirst).2 a ha)
  obtain ⟨-, hbcolon, -, hbspace⟩ := isWordChar_clean ((h last hlast).2 b hb)
  have hmem : ∀ c ∈ Text.join "::" segs, c = ':' ∨ isWordChar c = true := by
    intro c hc
    rcases mem_join hc with hc | ⟨seg, hseg, hc⟩
    · left
      have hall : "::".toList.all (· == ':') = true := by decide
      exact beq_iff_eq.mp (List.all_eq_true.mp hall c hc)
    · exact .inr ((h seg hseg).2 c hc)
  refine ⟨⟨?_, ?_, ?_, ?_, ?_, ?_⟩, ?_⟩
  · intro hnil
    rw [hnil] at hhead
    cases hhead
  · intro c hc
    rcases hmem c hc with rfl | hword
    · decide
    · exact (isWordChar_clean hword).1
  · cases harrow : Text.contains "=>" (Text.join "::" segs) with
    | false => rfl
    | true =>
      obtain ⟨front, back, hpart⟩ := (Text.contains_iff _ _).mp harrow
      have heq : '=' ∈ Text.join "::" segs := by
        rw [← hpart]
        exact List.mem_append_left back (List.mem_append_right front List.mem_cons_self)
      rcases hmem '=' heq with hcolon | hword
      · cases hcolon
      · exact absurd rfl (isWordChar_clean hword).2.2.1
  · rw [hhead]
    exact fun heq => hacolon (Option.some.inj heq)
  · rw [hend]
    exact fun heq => hbcolon (Option.some.inj heq)
  · rw [Text.splitPath_join hne]
    · exact fun p hp => (h p hp).1
    · intro p hp hcolon
      exact (isWordChar_clean ((h p hp).2 ':' hcolon)).2.1 rfl
  · apply Text.trim_eq_self
    · intro c hc
      rw [hhead] at hc
      rw [← Option.some.inj hc]
      exact haspace
    · intro c hc
      rw [hend] at hc
      rw [← Option.some.inj hc]
      exact hbspace

theorem invalid_path_clean : Clean "invalid_path".toList ∧
    Text.trim "invalid_path".toList = "invalid_path".toList := by
  have hword : "invalid_path".toList.all isWordChar = true := by decide
  have h := @clean_join ["invalid_path".toList] (List.cons_ne_nil _ _)
    (List.forall_mem_singleton.mpr ⟨by decide, List.all_eq_true.mp hword⟩)
  rw [Text.join_singleton] at h
  exact h

/-- A sanitised text is a path of word characters. -/
theorem sanitizePathFragment_spec (raw : Text) :
    Clean (sanitizePathFragment raw) ∧
      Text.trim (sanitizePathFragment raw) = sanitizePathFragment raw := by
  rw [sanitizePathFragment]
  by_cases htrim : Text.trim raw = []
  · rw [if_pos htrim]
    exact invalid_path_clean
  · rw [if_neg htrim]
    by_cases hempty : Text.join "::"
        (((Text.splitPath (stripGenericArgsLossy (replaceCrate (Text.trim raw)))).map
          cleanSegment).filter fun seg => seg ≠ []) = []
    · rw [if_pos hempty]
      exact invalid_path_clean
    · rw [if_neg hempty]
      apply clean_join
      · intro hnil
        rw [hnil] at hempty
        exact hempty rfl
      · intro seg hseg
        obtain ⟨hmem, hne⟩ := List.mem_filter.mp hseg
        obtain ⟨part, -, rfl⟩ := List.mem_map.mp hmem
        refine ⟨of_decide_eq_true hne, ?_⟩
        intro c hc
        obtain ⟨d, -, rfl⟩ := List.mem_map.mp hc
        by_cases hd : isWordChar d = true
        · rw [if_pos hd]
          exact hd
        · rw [if_neg hd]
          decide

/-! ### The form of the table -/

/-- The text that `canonical_path_form` checks. -/
def normalized (s : Text) : Text :=
  (Text.stripPrefix? "::" (Text.trim s)).getD (Text.trim s)

def Rejected (t : Text) : Prop :=
  t = [] ∨ '\x7b' ∈ t ∨ '\x7d' ∈ t ∨ Text.contains "=>" t ∨ '!' ∈ t ∨ Text.startsWith ":" t ∨
    Text.endsWith ":" t ∨ (Text.splitPath t).any fun seg => seg = ['_'] ∨ Text.startsWith "__" seg

theorem canonicalPathForm_eq_ok {s t : Text} :
    canonicalPathForm s = .ok t ↔ t = normalized s ∧ ¬ Rejected t := by
  by_cases h : Rejected (normalized s)
  · have herror : canonicalPathForm s = .error ("invalid path for path_intern: ".toList ++ s) :=
      if_pos h
    rw [herror]
    constructor
    · intro heq
      cases heq
    · intro ⟨ht, hok⟩
      rw [ht] at hok
      exact absurd h hok
  · have hok : canonicalPathForm s = .ok (normalized s) := if_neg h
    rw [hok, Except.ok.injEq]
    constructor
    · intro ht
      rw [← ht]
      exact ⟨rfl, h⟩
    · exact fun ht => ht.1.symm

theorem normalized_eq_self {t : Text} (htrim : Text.trim t = t) (hstart : t.head? ≠ some ':') :
    normalized t = t := by
  rw [normalized, htrim, Text.stripPrefix?, if_neg]
  · rfl
  · intro hpre
    obtain ⟨rest, hrest⟩ := List.isPrefixOf_iff_prefix.mp hpre
    apply hstart
    rw [← hrest]
    rfl

/-- What is accepted of a clean text without white space at its ends is the text. -/
theorem canonicalPathForm_of_clean {t t' : Text} (h : Clean t) (htrim : Text.trim t = t)
    (hok : canonicalPathForm t = .ok t') : t' = t := by
  rw [(canonicalPathForm_eq_ok.mp hok).1, normalized_eq_self htrim h.start]

/-- A text is its normal form with white space around it, and a cut before it or not. -/
theorem exists_normalized (s : Text) : ∃ w w', (∀ c ∈ w, Text.isWhitespace c = true) ∧
    (∀ c ∈ w', Text.isWhitespace c = true) ∧ (∀ c ∈ (normalized s).getLast?,
      normalized s ≠ [] → Text.isWhitespace c = false) ∧
    (s = w ++ (normalized s ++ w') ∧ Text.trim s = normalized s ∨
      s = w ++ (':' :: ':' :: normalized s ++ w') ∧ Text.trim s = ':' :: ':' :: normalized s) := by
  obtain ⟨w, w', hs, hw, hw'⟩ := Text.exists_trim s
  have hlast := @Text.getLast?_trim s
  refine ⟨w, w', hw, hw', ?_⟩
  rw [normalized, Text.stripPrefix?]
  by_cases hpre : (("::" : String) : Text).isPrefixOf (Text.trim s) = true
  · obtain ⟨rest, hrest⟩ := List.isPrefixOf_iff_prefix.mp hpre
    have hdrop : (Text.trim s).drop (("::" : String) : Text).length = rest := by
      rw [← hrest]
      rfl
    rw [if_pos hpre, hdrop, Option.getD_some]
    have htrim : Text.trim s = ':' :: ':' :: rest := hrest.symm
    rw [htrim] at hs hlast
    refine ⟨?_, .inr ⟨hs, htrim⟩⟩
    intro c hc hne
    apply hlast
    rw [show ':' :: ':' :: rest = [':', ':'] ++ rest from rfl, List.getLast?_append,
      Option.mem_def.mp hc]
    rfl
  · rw [if_neg hpre, Option.getD_none]
    exact ⟨fun c hc _ => hlast c hc, .inl ⟨hs, rfl⟩⟩

/-- The parts of the normal form of a clean text are not empty. -/
theorem parts_normalized {out : Text} (h : Clean out) (hne : normalized out ≠ [])
    (hstart : (normalized out).head? ≠ some ':') (hstop : (normalized out).getLast? ≠ some ':') :
    ∀ p ∈ Text.splitPath (normalized out), p ≠ [] := by
  obtain ⟨w, w', hw, hw', -, hout⟩ := exists_normalized out
  have hcolon : Text.isWhitespace ':' = false := by decide
  obtain ⟨init, last, hparts, hmore⟩ := Text.splitPath_append_right
    (Text.not_mem_of_whitespace hw' hcolon) (normalized out)
  have hlast := Text.last_splitPath_ne_nil hparts hne hstop
  -- The parts before the last one are parts of the whole text, but perhaps for the first.
  have hinit : ∀ p ∈ init, p ≠ [] := by
    intro p hp
    rcases hout with ⟨hout, -⟩ | ⟨hout, -⟩
    · cases init with
      | nil => exact absurd hp List.not_mem_nil
      | cons first init =>
        have hfirst := Text.head_splitPath_ne_nil hparts hne hstart
        have hwhole := Text.splitPath_append_left (Text.not_mem_of_whitespace hw hcolon) hmore
        rw [← hout] at hwhole
        rcases List.mem_cons.mp hp with rfl | hp
        · exact hfirst
        · apply h.parts p
          rw [hwhole]
          exact List.mem_cons_of_mem _ (List.mem_append_left _ hp)
    · have hcut : Text.splitPath (':' :: ':' :: normalized out ++ w') =
          [] :: (init ++ [last ++ w']) := by
        rw [List.cons_append, List.cons_append, Text.splitPath, hmore]
      have hwhole := Text.splitPath_append_left (Text.not_mem_of_whitespace hw hcolon) hcut
      rw [← hout] at hwhole
      apply h.parts p
      rw [hwhole]
      exact List.mem_cons_of_mem _ (List.mem_append_left _ hp)
  intro p hp
  rw [hparts] at hp
  rcases List.mem_append.mp hp with hp | hp
  · exact hinit p hp
  · rw [List.mem_singleton.mp hp]
    exact hlast

/-- The accepted form of a clean text is clean, and without white space at its ends if there
    is none in front. -/
theorem clean_normalized {out t : Text} (h : Clean out) (hok : canonicalPathForm out = .ok t)
    (hhead : ∀ c ∈ t.head?, Text.isWhitespace c = false) :
    Clean t ∧ Text.trim t = t := by
  obtain ⟨ht, haccepted⟩ := canonicalPathForm_eq_ok.mp hok
  simp only [Rejected, not_or] at haccepted
  obtain ⟨hne, -, -, harrow, -, hstart, hstop, -⟩ := haccepted
  rw [startsWith_colon] at hstart
  rw [endsWith_colon] at hstop
  obtain ⟨w, w', -, -, hlast, hout⟩ := exists_normalized out
  subst ht
  have hsub : ∀ c ∈ normalized out, c ∈ out := by
    intro c hc
    rcases hout with ⟨hout, -⟩ | ⟨hout, -⟩
    · rw [hout]
      exact List.mem_append_right w (List.mem_append_left w' hc)
    · rw [hout]
      exact List.mem_append_right w (List.mem_append_left w'
        (List.mem_cons_of_mem _ (List.mem_cons_of_mem _ hc)))
  refine ⟨⟨hne, fun c hc => h.chars c (hsub c hc), Bool.not_eq_true _ ▸ harrow, hstart, hstop,
    parts_normalized h hne hstart hstop⟩, ?_⟩
  exact Text.trim_eq_self hhead fun c hc => hlast c hc hne

/-! ### What is stored -/

/-- The text that `raw` is interned under. -/
def storedText (raw : Text) : Text :=
  let path := canonicalizePathFragment raw
  match canonicalPathForm path with
  | .ok t => t
  | .error _ =>
    let sanitized := sanitizePathFragment raw
    if sanitized ≠ path then
      match canonicalPathForm sanitized with
      | .ok t => t
      | .error _ => "invalid_path".toList
    else "invalid_path".toList

theorem canonicalPathForm_invalid_path :
    canonicalPathForm "invalid_path".toList = .ok "invalid_path".toList := by
  decide

section Intern

variable {Other : Type}

theorem internPath_of_ok (ir : CanonIR Other) {s t : Text} (h : canonicalPathForm s = .ok t) :
    ir.internPath s = ({ ir with pathIntern := (ir.pathIntern.intern t).1 },
      .ok (ir.pathIntern.intern t).2) := by
  rw [CanonIR.internPath, h]

theorem internPath_of_error (ir : CanonIR Other) {s e : Text}
    (h : canonicalPathForm s = .error e) : ir.internPath s = (ir, .error e) := by
  rw [CanonIR.internPath, h]

/-- No path fails: one text is interned. -/
theorem internPath_eq (ir : CanonIR Other) (raw : Text) :
    internPath ir raw = ({ ir with pathIntern := (ir.pathIntern.intern (storedText raw)).1 },
      .ok (ir.pathIntern.intern (storedText raw)).2) := by
  rw [internPath, storedText]
  cases hpath : canonicalPathForm (canonicalizePathFragment raw) with
  | ok t => simp only [internPath_of_ok ir hpath]
  | error e =>
    simp only [internPath_of_error ir hpath]
    by_cases hsame : sanitizePathFragment raw ≠ canonicalizePathFragment raw
    · simp only [if_pos hsame]
      cases hsanitized : canonicalPathForm (sanitizePathFragment raw) with
      | ok t => simp only [internPath_of_ok ir hsanitized]
      | error e =>
        simp only [internPath_of_error ir hsanitized]
        exact internPath_of_ok ir canonicalPathForm_invalid_path
    · simp only [if_neg hsame]
      exact internPath_of_ok ir canonicalPathForm_invalid_path

/-- What is interned is in the map, and interning it again changes nothing. -/
theorem intern_twice (table : Interner) (s : Text) :
    (table.intern s).1.map s = some (table.intern s).2 ∧
      (table.intern s).1.intern s = ((table.intern s).1, (table.intern s).2) := by
  have hmap : (table.intern s).1.map s = some (table.intern s).2 := by
    rw [Interner.intern]
    cases h : table.map s with
    | some idx => exact h
    | none => exact FMap.insert_self _ _ _
  refine ⟨hmap, ?_⟩
  conv_lhs => rw [Interner.intern, hmap]

/-- Every text in the map is found at its number. -/
def TableSound (table : Interner) : Prop :=
  ∀ s idx, table.map s = some idx → table.lookup idx = some s

theorem lookup_intern {table : Interner} (h : TableSound table) (hroom : table.vec.length < 2 ^ 32)
    (s : Text) : (table.intern s).1.lookup (table.intern s).2 = some s := by
  rw [Interner.intern]
  cases hmap : table.map s with
  | some idx => exact h s idx hmap
  | none =>
    show (table.vec ++ [s])[(UInt32.ofNat table.vec.length).toNat]? = some s
    rw [UInt32.toNat_ofNat_of_lt' hroom, List.getElem?_concat_length]

end Intern

/-- A cut and white space behind it: the code removes the cut and keeps the white space. -/
def GapAfterCut (raw : Text) : Prop :=
  ∃ c rest, Text.trim (canonicalizePathFragment raw) = ':' :: ':' :: c :: rest ∧
    Text.isWhitespace c = true ∧ ∃ t, canonicalPathForm (canonicalizePathFragment raw) = .ok t

/-! ### Interning the stored text again -/

theorem canonicalize_eq (raw : Text) : canonicalizePathFragment raw =
    if (checkFragment raw).2 = [] then (checkFragment raw).1 else sanitizePathFragment raw := rfl

theorem canonicalize_clean (raw : Text) : Clean (canonicalizePathFragment raw) := by
  rw [canonicalize_eq]
  by_cases h : (checkFragment raw).2 = []
  · rw [if_pos h]
    exact clean_of_checkFragment (Prod.ext rfl h)
  · rw [if_neg h]
    exact (sanitizePathFragment_spec raw).1

/-- A text that is stored was accepted. -/
theorem storedText_accepted (raw : Text) : ¬ Rejected (storedText raw) := by
  rw [storedText]
  cases hpath : canonicalPathForm (canonicalizePathFragment raw) with
  | ok t => exact (canonicalPathForm_eq_ok.mp hpath).2
  | error e =>
    simp only
    by_cases hsame : sanitizePathFragment raw ≠ canonicalizePathFragment raw
    · rw [if_pos hsame]
      cases hsanitized : canonicalPathForm (sanitizePathFragment raw) with
      | ok t => exact (canonicalPathForm_eq_ok.mp hsanitized).2
      | error e => exact (canonicalPathForm_eq_ok.mp canonicalPathForm_invalid_path).2
    · rw [if_neg hsame]
      exact (canonicalPathForm_eq_ok.mp canonicalPathForm_invalid_path).2

/-- Only a gap leaves white space in front of a stored text. -/
theorem head?_storedText {raw : Text} (h : ¬ GapAfterCut raw) {t : Text}
    (hok : canonicalPathForm (canonicalizePathFragment raw) = .ok t) :
    ∀ c ∈ t.head?, Text.isWhitespace c = false := by
  intro c hc
  cases hspace : Text.isWhitespace c with
  | false => rfl
  | true =>
    obtain ⟨rest, hrest⟩ := List.head?_eq_some_iff.mp hc
    have ht := (canonicalPathForm_eq_ok.mp hok).1
    obtain ⟨_, _, -, -, -, ⟨-, htrim⟩ | ⟨-, htrim⟩⟩ :=
      exists_normalized (canonicalizePathFragment raw)
    · rw [← ht] at htrim
      have hhead := @Text.head?_trim (canonicalizePathFragment raw) c (by rw [htrim]; exact hc)
      rw [hspace] at hhead
      cases hhead
    · rw [← ht, hrest] at htrim
      exact absurd ⟨c, rest, htrim, hspace, t, hok⟩ h

theorem storedText_clean {raw : Text} (h : ¬ GapAfterCut raw) :
    Clean (storedText raw) ∧ Text.trim (storedText raw) = storedText raw := by
  rw [storedText]
  cases hpath : canonicalPathForm (canonicalizePathFragment raw) with
  | ok t => exact clean_normalized (canonicalize_clean raw) hpath (head?_storedText h hpath)
  | error e =>
    simp only
    obtain ⟨hclean, htrim⟩ := sanitizePathFragment_spec raw
    by_cases hsame : sanitizePathFragment raw ≠ canonicalizePathFragment raw
    · rw [if_pos hsame]
      cases hsanitized : canonicalPathForm (sanitizePathFragment raw) with
      | ok t =>
        simp only [canonicalPathForm_of_clean hclean htrim hsanitized]
        exact ⟨hclean, htrim⟩
      | error e => exact invalid_path_clean
    · rw [if_neg hsame]
      exact invalid_path_clean

/-- Without a gap the stored text is stored as it is. -/
theorem storedText_storedText {raw : Text} (h : ¬ GapAfterCut raw) :
    storedText (storedText raw) = storedText raw := by
  obtain ⟨hclean, htrim⟩ := storedText_clean h
  have hok : canonicalPathForm (storedText raw) = .ok (storedText raw) :=
    canonicalPathForm_eq_ok.mpr
      ⟨(normalized_eq_self htrim hclean.start).symm, storedText_accepted raw⟩
  conv_lhs => rw [storedText, canonicalize_of_clean hclean htrim, hok]

/-! ### A gap -/

theorem length_replaceCrate (t : Text) : (replaceCrate t).length ≤ t.length := by
  rw [replaceCrate, Text.stripPrefix?]
  by_cases hpre : (("$crate::" : String) : Text).isPrefixOf t = true
  · obtain ⟨rest, hrest⟩ := List.isPrefixOf_iff_prefix.mp hpre
    rw [if_pos hpre, ← hrest]
    have hcrate : "crate::".toList.length = 7 := by decide
    have hdollar : "$crate::".toList.length = 8 := by decide
    simp only [List.length_append, List.length_drop, hcrate, hdollar]
    omega
  · rw [if_neg hpre]

theorem length_checkFragment {raw out : Text} (h : checkFragment raw = (out, [])) :
    out.length ≤ (Text.trim raw).length :=
  (stripGenerics_spec (checkFragment_ok h).1).1.length_le.trans (length_replaceCrate _)

theorem length_trim_lt {t : Text} {c : Char} (hc : t.head? = some c)
    (hspace : Text.isWhitespace c = true) : (Text.trim t).length < t.length := by
  obtain ⟨w, w', ht, -, -⟩ := Text.exists_trim t
  have hlength := congrArg List.length ht
  rw [List.length_append, List.length_append] at hlength
  by_cases hw : w = []
  · rw [hw, List.nil_append] at ht
    cases htrim : Text.trim t with
    | nil =>
      rw [List.length_nil]
      exact List.length_pos_iff.mpr fun hnil => by
        rw [hnil] at hc
        cases hc
    | cons d rest =>
      -- The first character would not be white space.
      rw [ht, htrim] at hc
      have hd := @Text.head?_trim t d (by rw [htrim]; rfl)
      rw [Option.some.inj hc, hspace] at hd
      cases hd
  · have hpos := List.length_pos_iff.mpr hw
    omega

theorem length_normalized (s : Text) : (normalized s).length ≤ s.length := by
  obtain ⟨w, w', -, -, -, ⟨hs, -⟩ | ⟨hs, -⟩⟩ := exists_normalized s
  · have hlength := congrArg List.length hs
    rw [List.length_append, List.length_append] at hlength
    omega
  · have hlength := congrArg List.length hs
    simp only [List.length_append, List.length_cons] at hlength
    omega

/-- White space in front does not survive. -/
theorem storedText_ne {t : Text} {c : Char} (hc : t.head? = some c)
    (hspace : Text.isWhitespace c = true) : storedText t ≠ t := by
  intro heq
  have hshort := length_trim_lt hc hspace
  have hclean : ∀ s : Text, Text.trim s = s → s ≠ t := by
    intro s hs hst
    rw [hst] at hs
    rw [hs] at hshort
    omega
  rw [storedText] at heq
  obtain ⟨-, htrim⟩ := sanitizePathFragment_spec t
  cases hpath : canonicalPathForm (canonicalizePathFragment t) with
  | ok t' =>
    simp only [hpath] at heq
    by_cases herrors : (checkFragment t).2 = []
    · have hout : canonicalizePathFragment t = (checkFragment t).1 := if_pos herrors
      have hlength := length_checkFragment (Prod.ext rfl herrors : checkFragment t = (_, []))
      have hnormal := length_normalized (canonicalizePathFragment t)
      have ht : normalized (canonicalizePathFragment t) = t :=
        (canonicalPathForm_eq_ok.mp hpath).1.symm.trans heq
      rw [ht] at hnormal
      have hle : (canonicalizePathFragment t).length ≤ (Text.trim t).length := by
        rw [hout]
        exact hlength
      omega
    · have hout : canonicalizePathFragment t = sanitizePathFragment t := if_neg herrors
      rw [hout] at hpath
      have hsame := canonicalPathForm_of_clean (sanitizePathFragment_spec t).1 htrim hpath
      rw [hsame] at heq
      exact hclean _ htrim heq
  | error e =>
    simp only [hpath] at heq
    by_cases hsame : sanitizePathFragment t ≠ canonicalizePathFragment t
    · rw [if_pos hsame] at heq
      cases hsanitized : canonicalPathForm (sanitizePathFragment t) with
      | ok t' =>
        simp only [hsanitized] at heq
        have hsame := canonicalPathForm_of_clean (sanitizePathFragment_spec t).1 htrim hsanitized
        rw [hsame] at heq
        exact hclean _ htrim heq
      | error e =>
        simp only [hsanitized] at heq
        exact hclean _ invalid_path_clean.2 heq
    · rw [if_neg hsame] at heq
      exact hclean _ invalid_path_clean.2 heq

theorem storedText_of_gap {raw : Text} (h : GapAfterCut raw) :
    ∃ c, (storedText raw).head? = some c ∧ Text.isWhitespace c = true := by
  obtain ⟨c, rest, htrim, hspace, t, hok⟩ := h
  refine ⟨c, ?_, hspace⟩
  have ht := (canonicalPathForm_eq_ok.mp hok).1
  rw [storedText, hok, ht, normalized, htrim]
  rfl

/-! ### Interning a path twice -/

/-- A path is always interned, under its stored text, which the table accepts; and interning
    this text again gives the same number in every state exactly where the path has no white
    space behind a cut at its beginning. -/
theorem intern_path_stable_iff {Other : Type} (raw : Text) :
    (∀ ir : CanonIR Other, ∃ id, (internPath ir raw).2 = .ok id ∧
      (internPath ir raw).1.pathIntern.map (storedText raw) = some id ∧
      (TableSound ir.pathIntern → ir.pathIntern.vec.length < 2 ^ 32 →
        (internPath ir raw).1.lookupPath id = some (storedText raw))) ∧
    ((∀ ir : CanonIR Other, (∃ t, canonicalPathForm (storedText raw) = .ok t) ∧
      (internPath (internPath ir raw).1 (storedText raw)).2 = (internPath ir raw).2) ↔
        ¬ GapAfterCut raw) := by
  refine ⟨?_, ?_, ?_⟩
  · intro ir
    rw [internPath_eq]
    exact ⟨_, rfl, (intern_twice ir.pathIntern (storedText raw)).1,
      fun hsound hroom => lookup_intern hsound hroom (storedText raw)⟩
  · intro h hgap
    -- In an empty table the shorter text has another number.
    obtain ⟨c, hc, hspace⟩ := storedText_of_gap hgap
    have hne := storedText_ne hc hspace
    have hsame := (h .new).2
    rw [internPath_eq (CanonIR.new : CanonIR Other) raw, internPath_eq] at hsame
    have hid := Except.ok.inj hsame
    have hmap : (FMap.empty.insert (storedText raw) 0 : FMap Text UInt32)
        (storedText (storedText raw)) = none := FMap.insert_of_ne _ _ hne
    have hnext : ((Interner.new.intern (storedText raw)).1.intern
        (storedText (storedText raw))).2 = 1 := by
      rw [show (Interner.new.intern (storedText raw)).1 =
        ⟨[storedText raw], FMap.empty.insert (storedText raw) 0⟩ from rfl, Interner.intern]
      simp only [hmap]
      rfl
    have hfirst : (Interner.new.intern (storedText raw)).2 = 0 := rfl
    have hid' : (1 : UInt32) = 0 := hnext.symm.trans (hid.trans hfirst)
    exact absurd hid' (by decide)
  · intro hgap ir
    obtain ⟨hclean, htrim⟩ := storedText_clean hgap
    refine ⟨⟨storedText raw, canonicalPathForm_eq_ok.mpr
      ⟨(normalized_eq_self htrim hclean.start).symm, storedText_accepted raw⟩⟩, ?_⟩
    rw [internPath_eq ir raw, internPath_eq, storedText_storedText hgap]
    exact congrArg (fun e => Except.ok e.2) (intern_twice ir.pathIntern (storedText raw)).2

/-- `<T> :: a` is stored as `" a"`, which is interned as `"a"`. -/
theorem gap_path_interned_twice :
    (internPath (internPath (CanonIR.new : CanonIR Empty) "<T> :: a".toList).1
      (storedText "<T> :: a".toList)).2 ≠
        (internPath (CanonIR.new : CanonIR Empty) "<T> :: a".toList).2 := by
  decide

end Canon.Capture
