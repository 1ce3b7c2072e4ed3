import Canon.Lib.Cut

/-! # Words and lines of a text

    The words of a text are its pieces between runs of white space.  Trimming the
    text keeps them, and a trimmed text begins with its first word.  It also keeps
    what is read from its lines.
-/

namespace Text

/-! ### Words -/

theorem trim_trim (s : Text) : trim (trim s) = trim s := by
  cases htrim : trim s with
  | nil => rfl
  | cons c t =>
    have hc := isWhitespace_head_trim htrim
    obtain ⟨front, hfront⟩ : c :: t <:+ trimEnd s := by
      rw [← htrim]
      exact List.dropWhile_suffix _
    have hidem : trimEnd (trimEnd s) = trimEnd s := List.rdropWhile_idempotent _ _
    have hend : trimEnd (c :: t) = c :: t := by
      rw [trimEnd_eq_self_iff] at hidem ⊢
      intro h
      have hlast := hidem (by simp [← hfront])
      simpa [← hfront] using hlast
    rw [trim, hend, trimStart_cons hc]

theorem splitWhitespace_cons_space {c : Char} (hc : isWhitespace c = true) (s : Text) :
    splitWhitespace (c :: s) = splitWhitespace s := by
  rw [splitWhitespace, List.splitOnP_cons_eq_if_modifyHead, if_pos hc]
  simp [splitWhitespace]

theorem splitOnP_concat_space {c : Char} (hc : isWhitespace c = true) (s : Text) :
    (s ++ [c]).splitOnP isWhitespace = s.splitOnP isWhitespace ++ [[]] := by
  induction s with
  | nil => simp [List.splitOnP_cons_eq_if_modifyHead, hc]
  | cons d s ih =>
    rw [List.cons_append, List.splitOnP_cons_eq_if_modifyHead, List.splitOnP_cons_eq_if_modifyHead,
      ih]
    obtain ⟨first, others, hparts⟩ :=
      List.exists_cons_of_ne_nil (List.splitOnP_ne_nil isWhitespace s)
    rw [hparts]
    split
    · rfl
    · rfl

theorem splitWhitespace_concat_space {c : Char} (hc : isWhitespace c = true) (s : Text) :
    splitWhitespace (s ++ [c]) = splitWhitespace s := by
  rw [splitWhitespace, splitOnP_concat_space hc, List.filter_append]
  simp [splitWhitespace]

theorem splitWhitespace_trim (s : Text) : splitWhitespace (trim s) = splitWhitespace s := by
  have hend : splitWhitespace (trimEnd s) = splitWhitespace s := by
    induction s using List.reverseRecOn with
    | nil => simp
    | append_singleton s c ih =>
      rw [trimEnd_concat]
      by_cases hc : isWhitespace c = true
      · rw [if_pos hc, ih, splitWhitespace_concat_space hc]
      · rw [if_neg hc]
  have hstart : ∀ t : Text, splitWhitespace (trimStart t) = splitWhitespace t := by
    intro t
    induction t with
    | nil => rfl
    | cons c t ih =>
      by_cases hc : isWhitespace c = true
      · rw [trimStart, List.dropWhile_cons_of_pos hc, splitWhitespace_cons_space hc]
        exact ih
      · rw [trimStart, List.dropWhile_cons_of_neg hc]
  rw [trim, hstart, hend]

/-- A trimmed text begins with its first word. -/
theorem first_word_prefix_trim {s word : Text} {rest : List Text}
    (h : splitWhitespace s = word :: rest) : word <+: trim s := by
  rw [← splitWhitespace_trim] at h
  cases htrim : trim s with
  | nil => simp [htrim, splitWhitespace] at h
  | cons c t =>
    have hc := isWhitespace_head_trim htrim
    obtain ⟨first, others, hparts⟩ :=
      List.exists_cons_of_ne_nil (List.splitOnP_ne_nil isWhitespace t)
    have hfront : first <+: t := by
      have hall : ∀ (u first : Text) (others : List Text),
          u.splitOnP isWhitespace = first :: others → first <+: u := by
        intro u
        induction u with
        | nil =>
          intro first others hu
          rw [List.splitOnP_nil] at hu
          obtain ⟨rfl, -⟩ := List.cons.inj hu
          exact List.nil_prefix
        | cons d u ih =>
          intro first others hu
          obtain ⟨first', others', hparts'⟩ :=
            List.exists_cons_of_ne_nil (List.splitOnP_ne_nil isWhitespace u)
          rw [List.splitOnP_cons_eq_if_modifyHead, hparts'] at hu
          split at hu
          · obtain ⟨rfl, -⟩ := List.cons.inj hu
            exact List.nil_prefix
          · obtain ⟨rfl, -⟩ := List.cons.inj hu
            exact List.cons_prefix_cons.mpr ⟨rfl, ih _ _ hparts'⟩
      exact hall t first others hparts
    rw [htrim, splitWhitespace, List.splitOnP_cons_eq_if_modifyHead, hparts, hc] at h
    simp only [Bool.false_eq_true, if_false, List.modifyHead_cons, ne_eq, reduceCtorEq,
      not_false_eq_true, decide_true, List.filter_cons_of_pos] at h
    rw [← (List.cons.inj h).1]
    exact List.cons_prefix_cons.mpr ⟨rfl, hfront⟩

theorem eq_append_of_stripPrefix? {p s rest : Text} (h : stripPrefix? p s = some rest) :
    s = p ++ rest := by
  unfold stripPrefix? at h
  split at h
  · rename_i hp
    obtain ⟨t, rfl⟩ := List.isPrefixOf_iff_prefix.mp hp
    rw [← Option.some.inj h, List.drop_left]
  · simp at h

/-! ### Lines

    What is read from each line of a text, blank lines and the space around a line
    being of no account, is the same for the trimmed text. -/

section Lines

theorem trim_cons_space {c : Char} (hc : isWhitespace c = true) (s : Text) :
    trim (c :: s) = trim s := by
  by_cases h : trimEnd s = []
  · have hcons : trimEnd (c :: s) = [] := by
      rw [show c :: s = [c] ++ s from rfl, trimEnd_append_of_nil h]
      simp [trimEnd, List.rdropWhile_singleton, hc]
    rw [trim, trim, hcons, h]
  · have hcons : trimEnd (c :: s) = c :: trimEnd s := by
      rw [show c :: s = [c] ++ s from rfl, trimEnd_append h]
      rfl
    rw [trim, trim, hcons, trimStart, List.dropWhile_cons_of_pos hc]
    rfl

theorem trim_concat_space {c : Char} (hc : isWhitespace c = true) (s : Text) :
    trim (s ++ [c]) = trim s := by
  rw [trim, trimEnd_concat, if_pos hc, trim]

/-- A character at the end is at the end of the last piece. -/
theorem splitOn_concat {c d : Char} (hne : d ≠ c) (s : Text) :
    ∃ front last, s.splitOn c = front ++ [last] ∧
      (s ++ [d]).splitOn c = front ++ [last ++ [d]] := by
  induction s with
  | nil => exact ⟨[], [], by simp [List.splitOn_cons_eq_if_modifyHead, hne]⟩
  | cons e s ih =>
    obtain ⟨front, last, hs, hd⟩ := ih
    rw [List.cons_append, List.splitOn_cons_eq_if_modifyHead, List.splitOn_cons_eq_if_modifyHead,
      hs, hd]
    by_cases he : e = c
    · exact ⟨[] :: front, last, by simp [he]⟩
    · cases front with
      | nil => exact ⟨[], e :: last, by simp [he]⟩
      | cons first front => exact ⟨(e :: first) :: front, last, by simp [he]⟩

variable {α : Type} {f : Text → Option α}

theorem filterMap_lines (htrim : ∀ l, f (trim l) = f l) (hnil : f [] = none) (s : Text) :
    (lines s).filterMap f = (s.splitOn '\n').filterMap f := by
  have hcr : ∀ l, f (stripCr l) = f l := by
    intro l
    rw [← htrim (stripCr l), trim_stripCr, htrim]
  have hparts := List.dropLast_append_getLast (List.splitOn_ne_nil '\n' s)
  have hlast := List.getLast?_eq_some_getLast (List.splitOn_ne_nil '\n' s)
  rw [lines, hlast, List.filterMap_append, List.filterMap_map,
    show f ∘ stripCr = f from funext hcr]
  conv => rhs; rw [← hparts, List.filterMap_append]
  congr 1
  -- An empty last piece is no line.
  cases (s.splitOn '\n').getLast (List.splitOn_ne_nil '\n' s) with
  | nil => simp [hnil]
  | cons c l => rfl

theorem filterMap_splitOn_cons_space (htrim : ∀ l, f (trim l) = f l) (hnil : f [] = none)
    {c : Char} (hc : isWhitespace c = true) (s : Text) :
    ((c :: s).splitOn '\n').filterMap f = (s.splitOn '\n').filterMap f := by
  rw [List.splitOn_cons_eq_if_modifyHead]
  split
  · simp [hnil]
  · obtain ⟨first, others, hparts⟩ := List.exists_cons_of_ne_nil (List.splitOn_ne_nil '\n' s)
    have hfirst : f (c :: first) = f first := by
      rw [← htrim (c :: first), trim_cons_space hc, htrim]
    rw [hparts, List.modifyHead_cons, List.filterMap_cons, List.filterMap_cons, hfirst]

theorem filterMap_splitOn_concat_space (htrim : ∀ l, f (trim l) = f l) (hnil : f [] = none)
    {c : Char} (hc : isWhitespace c = true) (s : Text) :
    ((s ++ [c]).splitOn '\n').filterMap f = (s.splitOn '\n').filterMap f := by
  by_cases hfeed : c = '\n'
  · rw [hfeed, List.splitOn_append_cons_self]
    simp [hnil]
  · obtain ⟨front, last, hs, hd⟩ := splitOn_concat hfeed s
    have hlast : f (last ++ [c]) = f last := by
      rw [← htrim (last ++ [c]), trim_concat_space hc, htrim]
    rw [hs, hd, List.filterMap_append, List.filterMap_append, List.filterMap_cons,
      List.filterMap_cons, hlast]

theorem filterMap_lines_trim (htrim : ∀ l, f (trim l) = f l) (hnil : f [] = none) (s : Text) :
    (lines (trim s)).filterMap f = (lines s).filterMap f := by
  rw [filterMap_lines htrim hnil, filterMap_lines htrim hnil]
  have hend : ((trimEnd s).splitOn '\n').filterMap f = (s.splitOn '\n').filterMap f := by
    induction s using List.reverseRecOn with
    | nil => simp
    | append_singleton s c ih =>
      rw [trimEnd_concat]
      by_cases hc : isWhitespace c = true
      · rw [if_pos hc, ih, filterMap_splitOn_concat_space htrim hnil hc]
      · rw [if_neg hc]
  have hstart : ∀ t : Text,
      ((trimStart t).splitOn '\n').filterMap f = (t.splitOn '\n').filterMap f := by
    intro t
    induction t with
    | nil => rfl
    | cons c t ih =>
      by_cases hc : isWhitespace c = true
      · rw [trimStart, List.dropWhile_cons_of_pos hc, filterMap_splitOn_cons_space htrim hnil hc]
        exact ih
      · rw [trimStart, List.dropWhile_cons_of_neg hc]
  rw [trim, hstart, hend]

/-- A line holds no line feed. -/
theorem feed_notMem_of_mem_lines {s l : Text} (h : l ∈ lines s) : '\n' ∉ l := by
  have hpart : ∀ (t : Text), ∀ p ∈ t.splitOn '\n', '\n' ∉ p := by
    intro t
    induction t with
    | nil => simp
    | cons c t ih =>
      rw [List.splitOn_cons_eq_if_modifyHead]
      obtain ⟨first, others, hparts⟩ := List.exists_cons_of_ne_nil (List.splitOn_ne_nil '\n' t)
      rw [hparts] at ih ⊢
      by_cases hc : c = '\n'
      · simpa [hc] using ih
      · have hc' : '\n' ≠ c := fun h => hc h.symm
        simpa [hc, hc'] using ih
  rw [lines] at h
  rcases List.mem_append.mp h with h | h
  · obtain ⟨p, hp, rfl⟩ := List.mem_map.mp h
    have hfeed := hpart s p (List.dropLast_subset _ hp)
    unfold stripCr
    split
    · exact fun hmem => hfeed (List.dropLast_subset _ hmem)
    · exact hfeed
  · split at h
    · simp at h
    · simp at h
    · rename_i p _ hlast
      rw [List.mem_singleton.mp h]
      exact hpart s p (List.mem_of_getLast? hlast)

end Lines

/-! ### Occurrences of a character -/

theorem find?_singleton (c : Char) (s : Text) :
    (find? [c] s = none ∧ c ∉ s) ∨
      ∃ a b, s = a ++ c :: b ∧ c ∉ a ∧ find? [c] s = some a.length := by
  induction s with
  | nil => exact .inl ⟨rfl, List.not_mem_nil⟩
  | cons d s ih =>
    by_cases hd : c = d
    · refine .inr ⟨[], s, by rw [hd]; rfl, List.not_mem_nil, ?_⟩
      simp [find?, hd]
    · have hstep : find? [c] (d :: s) = (find? [c] s).map (· + 1) := by
        simp [find?, hd]
      match ih with
      | .inl ⟨hnone, hmem⟩ =>
        refine .inl ⟨by rw [hstep, hnone]; rfl, ?_⟩
        intro h
        rcases List.mem_cons.mp h with h | h
        · exact hd h
        · exact hmem h
      | .inr ⟨a, b, hs, ha, hfind⟩ =>
        refine .inr ⟨d :: a, b, by rw [hs]; rfl, ?_, by rw [hstep, hfind]; rfl⟩
        intro h
        rcases List.mem_cons.mp h with h | h
        · exact hd h
        · exact ha h

theorem rfind?_singleton (c : Char) (s : Text) :
    (rfind? [c] s = none ∧ c ∉ s) ∨
      ∃ a b, s = a ++ c :: b ∧ c ∉ b ∧ rfind? [c] s = some a.length := by
  induction s with
  | nil => exact .inl ⟨rfl, List.not_mem_nil⟩
  | cons d s ih =>
    match ih with
    | .inr ⟨a, b, hs, hb, hfind⟩ =>
      exact .inr ⟨d :: a, b, by rw [hs]; rfl, hb, by rw [rfind?, hfind]; rfl⟩
    | .inl ⟨hnone, hmem⟩ =>
      by_cases hd : c = d
      · refine .inr ⟨[], s, by rw [hd]; rfl, hmem, ?_⟩
        rw [rfind?, hnone]
        simp [hd]
      · refine .inl ⟨by simp [rfind?, hnone, hd], ?_⟩
        intro h
        rcases List.mem_cons.mp h with h | h
        · exact hd h
        · exact hmem h

theorem notMem_append {c : Char} {s t : Text} : c ∉ s ++ t ↔ c ∉ s ∧ c ∉ t := by
  rw [List.mem_append, not_or]

/-- There is one way to cut a text at the first `c`. -/
theorem cut_first_unique {c : Char} {a b a' b' : Text} (h : a ++ c :: b = a' ++ c :: b')
    (ha : c ∉ a) (ha' : c ∉ a') : a = a' := by
  induction a generalizing a' with
  | nil =>
    cases a' with
    | nil => rfl
    | cons d a' =>
      have hd : c = d := (List.cons.inj h).1
      exact absurd (by rw [hd]; exact List.mem_cons_self) ha'
  | cons d a ih =>
    cases a' with
    | nil =>
      have hd : d = c := (List.cons.inj h).1
      exact absurd (by rw [hd]; exact List.mem_cons_self) ha
    | cons d' a' =>
      obtain ⟨hd, hrest⟩ := List.cons.inj h
      rw [hd, ih hrest (fun hm => ha (List.mem_cons_of_mem _ hm))
        (fun hm => ha' (List.mem_cons_of_mem _ hm))]

/-- And one to cut it at the last `c`. -/
theorem cut_last_unique {c : Char} {a b a' b' : Text} (h : a ++ c :: b = a' ++ c :: b')
    (hb : c ∉ b) (hb' : c ∉ b') : a = a' := by
  have hrev : b.reverse ++ c :: a.reverse = b'.reverse ++ c :: a'.reverse := by
    simpa using congrArg List.reverse h
  have hback : b = b' := List.reverse_injective
    (cut_first_unique hrev (by simpa using hb) (by simpa using hb'))
  rw [hback] at h
  exact List.append_cancel_right h

/-- The first `c` stands behind the last `d`, and not next to it. -/
def Inverted (c d : Char) (s : Text) : Prop :=
  ∃ a b t, s = a ++ d :: (b ++ c :: t) ∧ b ≠ [] ∧ c ∉ a ∧ c ∉ b ∧ d ∉ b ∧ d ∉ t

/-- The slice from the first `c` to behind the last `d`, or from the start and to the
    end, has its bounds in the wrong order exactly on the inverted texts. -/
theorem inverted_iff {c d : Char} (hcd : c ≠ d) (s : Text) :
    ((rfind? [d] s).map (· + 1)).getD s.length < (find? [c] s).getD 0 ↔ Inverted c d s := by
  constructor
  · intro h
    match find?_singleton c s with
    | .inl ⟨hnone, _⟩ =>
      rw [hnone] at h
      exact absurd h (Nat.not_lt_zero _)
    | .inr ⟨a, b, hs, ha, hfind⟩ =>
      rw [hfind] at h
      match rfind?_singleton d s with
      | .inl ⟨hnone, _⟩ =>
        have hlt : (a ++ c :: b).length < a.length := by
          rw [hnone, hs] at h
          exact h
        rw [List.length_append] at hlt
        omega
      | .inr ⟨a', b', hs', hb', hrfind⟩ =>
        rw [hrfind] at h
        have hlt : a'.length + 1 < a.length := h
        have heq : a ++ c :: b = (a' ++ [d]) ++ b' := by
          rw [← hs, hs', List.append_assoc]
          rfl
        rcases List.append_eq_append_iff.mp heq with ⟨t, ht, _⟩ | ⟨t, ht, ht'⟩
        · have hlen := congrArg List.length ht
          simp at hlen
          omega
        -- What stands between the two characters.
        · have hlen := congrArg List.length ht
          rw [List.length_append, List.length_append, List.length_singleton] at hlen
          have hmem : c ∉ a' ++ [d] ∧ c ∉ t := by
            rw [ht] at ha
            exact notMem_append.mp ha
          rw [ht'] at hb'
          have hmem' := notMem_append.mp hb'
          refine ⟨a', t, b, ?_, ?_, (notMem_append.mp hmem.1).1, hmem.2, hmem'.1, ?_⟩
          · rw [hs', ht']
          · intro hnil
            rw [hnil, List.length_nil] at hlen
            omega
          · exact fun h => hmem'.2 (List.mem_cons_of_mem _ h)
  · rintro ⟨a, b, t, hs, hb, hca, hcb, hdb, hdt⟩
    have hlen : 0 < b.length := List.length_pos_iff.mpr hb
    match find?_singleton c s, rfind?_singleton d s with
    | .inl ⟨_, hmem⟩, _ => exact absurd (by rw [hs]; simp) hmem
    | _, .inl ⟨_, hmem⟩ => exact absurd (by rw [hs]; simp) hmem
    | .inr ⟨x, y, hx, hcx, hfind⟩, .inr ⟨x', y', hx', hdy', hrfind⟩ =>
      rw [hfind, hrfind]
      show x'.length + 1 < x.length
      have hfront : x = a ++ d :: b := by
        have hcut : x ++ c :: y = (a ++ d :: b) ++ c :: t := by
          rw [← hx, hs, List.append_assoc]
          rfl
        apply cut_first_unique hcut hcx
        simp [hca, hcb, hcd]
      have hback : x' = a := by
        have hcut : x' ++ d :: y' = a ++ d :: (b ++ c :: t) := by
          rw [← hx', hs]
        apply cut_last_unique hcut hdy'
        simp [hdb, hdt, Ne.symm hcd]
      rw [hfront, hback, List.length_append, List.length_cons]
      omega

/-! ### Stretches -/

theorem contains_iff (p s : Text) : contains p s = true ↔ p <:+: s := by
  unfold contains
  induction s with
  | nil =>
    rw [find?, List.infix_nil]
    split
    · simpa
    · simpa
  | cons c s ih =>
    rw [find?, List.infix_cons_iff]
    by_cases hp : p.isPrefixOf (c :: s) = true
    · rw [if_pos hp]
      simp [List.isPrefixOf_iff_prefix.mp hp]
    · have hno : ¬ p <+: c :: s := fun h => hp (List.isPrefixOf_iff_prefix.mpr h)
      rw [if_neg hp, Option.isSome_map, ih]
      simp [hno]

theorem startsWith_iff (p s : Text) : startsWith p s = true ↔ p <+: s :=
  List.isPrefixOf_iff_prefix

end Text
