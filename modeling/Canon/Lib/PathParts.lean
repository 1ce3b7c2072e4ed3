import Canon.Lib.Text

/-! # Texts cut at `::`

    `splitPath` and `join` are inverse to each other where no part has a colon in it, and
    white space at the ends of a text belongs to its first and its last part.
-/

namespace Text

/-! ### Splitting and joining -/

theorem splitPath_cons {c : Char} {rest : Text} (h : ¬ ∃ t, c = ':' ∧ rest = ':' :: t) :
    splitPath (c :: rest) = match splitPath rest with
      | [] => [[c]]
      | part :: parts => (c :: part) :: parts := by
  have hcolon : ∀ t, c = ':' → rest = ':' :: t → False := fun t hc hrest => h ⟨t, hc, hrest⟩
  exact splitPath.eq_3 c rest hcolon

theorem splitPath_ne_nil (s : Text) : splitPath s ≠ [] := by
  fun_induction splitPath s <;> simp

@[simp] theorem join_singleton (sep part : Text) : join sep [part] = part := by
  simp [join, List.intercalate]

theorem join_cons (sep part : Text) {parts : List Text} (h : parts ≠ []) :
    join sep (part :: parts) = part ++ (sep ++ join sep parts) := by
  cases parts with
  | nil => exact absurd rfl h
  | cons q parts => simp [join, List.intercalate, List.intersperse]

theorem join_splitPath (s : Text) : join "::" (splitPath s) = s := by
  fun_induction splitPath s with
  | case1 => simp
  | case2 rest ih =>
    rw [join_cons _ _ (splitPath_ne_nil rest), ih]
    rfl
  | case3 c rest _ hnil _ => exact absurd hnil (splitPath_ne_nil rest)
  | case4 c rest _ part parts hparts ih =>
    rw [hparts] at ih
    cases parts with
    | nil =>
      rw [join_singleton] at ih ⊢
      rw [ih]
    | cons q parts =>
      rw [join_cons _ _ (List.cons_ne_nil q parts)] at ih ⊢
      rw [List.cons_append, ih]

/-- A text without a colon in front belongs to the first part. -/
theorem splitPath_append_left {w s first : Text} {rest : List Text} (hw : ':' ∉ w)
    (hs : splitPath s = first :: rest) : splitPath (w ++ s) = (w ++ first) :: rest := by
  induction w with
  | nil => exact hs
  | cons c w ih =>
    rw [List.mem_cons, not_or] at hw
    rw [List.cons_append, splitPath_cons, ih hw.2]
    · rfl
    · intro ⟨_, hc, _⟩
      exact hw.1 hc.symm

theorem splitPath_of_not_mem {w : Text} (hw : ':' ∉ w) : splitPath w = [w] := by
  have h := @splitPath_append_left w [] [] [] hw rfl
  rw [List.append_nil] at h
  exact h

/-- And one behind to the last. -/
theorem splitPath_append_right {w : Text} (hw : ':' ∉ w) (s : Text) :
    ∃ init last, splitPath s = init ++ [last] ∧ splitPath (s ++ w) = init ++ [last ++ w] := by
  fun_induction splitPath s with
  | case1 => exact ⟨[], [], rfl, splitPath_of_not_mem hw⟩
  | case2 rest ih =>
    obtain ⟨init, last, hparts, hmore⟩ := ih
    refine ⟨[] :: init, last, by rw [hparts]; rfl, ?_⟩
    rw [List.cons_append, List.cons_append, splitPath, hmore]
    rfl
  | case3 c rest _ hnil _ => exact absurd hnil (splitPath_ne_nil rest)
  | case4 c rest hcolon part parts hparts ih =>
    obtain ⟨init, last, hsplit, hmore⟩ := ih
    have hnot : ¬ ∃ t, c = ':' ∧ rest ++ w = ':' :: t := by
      intro ⟨t, hc, hrest⟩
      cases rest with
      | nil =>
        rw [List.nil_append] at hrest
        exact hw (hrest ▸ List.mem_cons_self)
      | cons d rest =>
        exact hcolon rest hc (by rw [(List.cons.inj hrest).1])
    rw [List.cons_append, splitPath_cons hnot, hmore]
    rw [hparts] at hsplit
    cases init with
    | nil =>
      obtain ⟨rfl, rfl⟩ := List.cons.inj hsplit
      exact ⟨[], c :: part, rfl, rfl⟩
    | cons first init =>
      obtain ⟨rfl, rfl⟩ := List.cons.inj hsplit
      exact ⟨(c :: part) :: init, last, rfl, rfl⟩

theorem splitPath_join {parts : List Text} (hne : parts ≠ []) (h : ∀ p ∈ parts, ':' ∉ p) :
    splitPath (join "::" parts) = parts := by
  induction parts with
  | nil => exact absurd rfl hne
  | cons part parts ih =>
    obtain ⟨hpart, hparts⟩ := List.forall_mem_cons.mp h
    by_cases hnil : parts = []
    · rw [hnil, join_singleton, splitPath_of_not_mem hpart]
    · rw [join_cons _ _ hnil]
      have htail : splitPath ((("::" : String) : Text) ++ join "::" parts) = [] :: parts := by
        show splitPath (':' :: ':' :: join "::" parts) = _
        rw [splitPath, ih hnil hparts]
      rw [splitPath_append_left hpart htail, List.append_nil]

/-! ### Ends -/

/-- A first part is empty only where nothing or a cut is in front. -/
theorem head_splitPath_ne_nil {s first : Text} {rest : List Text}
    (hs : splitPath s = first :: rest) (hne : s ≠ []) (hstart : s.head? ≠ some ':') :
    first ≠ [] := by
  intro hfirst
  have hjoin := join_splitPath s
  rw [hs, hfirst] at hjoin
  cases rest with
  | nil =>
    rw [join_singleton] at hjoin
    exact hne hjoin.symm
  | cons q rest =>
    rw [join_cons _ _ (List.cons_ne_nil q rest)] at hjoin
    apply hstart
    rw [← hjoin]
    rfl

theorem last_splitPath_ne_nil {s last : Text} {init : List Text}
    (hs : splitPath s = init ++ [last]) (hne : s ≠ []) (hend : s.getLast? ≠ some ':') :
    last ≠ [] := by
  intro hlast
  have hjoin := join_splitPath s
  rw [hs, hlast] at hjoin
  have hsuffix : ∀ init : List Text, init ≠ [] →
      (join "::" (init ++ [[]])).getLast? = some ':' := by
    intro init
    induction init with
    | nil => exact fun h => absurd rfl h
    | cons part init ih =>
      intro _
      rw [List.cons_append, join_cons _ _ (by simp)]
      by_cases hinit : init = []
      · subst hinit
        simp
      · have hrest := ih hinit
        rw [List.getLast?_append, List.getLast?_append, hrest]
        rfl
  by_cases hinit : init = []
  · rw [hinit, List.nil_append, join_singleton] at hjoin
    exact hne hjoin.symm
  · have h := hsuffix init hinit
    rw [hjoin] at h
    exact hend h

/-! ### Trimming -/

theorem not_mem_of_whitespace {w : Text} (hw : ∀ c ∈ w, isWhitespace c = true) {c : Char}
    (hc : isWhitespace c = false) : c ∉ w := by
  intro hmem
  rw [hw c hmem] at hc
  cases hc

/-- Trimming takes white space off both ends. -/
theorem exists_trim (s : Text) : ∃ w w', s = w ++ (trim s ++ w') ∧
    (∀ c ∈ w, isWhitespace c = true) ∧ ∀ c ∈ w', isWhitespace c = true := by
  refine ⟨(trimEnd s).takeWhile isWhitespace, (s.reverse.takeWhile isWhitespace).reverse, ?_, ?_,
    ?_⟩
  · have hend : trimEnd s ++ (s.reverse.takeWhile isWhitespace).reverse = s := by
      rw [trimEnd, List.rdropWhile, ← List.reverse_append, List.takeWhile_append_dropWhile,
        List.reverse_reverse]
    rw [trim, trimStart, ← List.append_assoc, List.takeWhile_append_dropWhile, hend]
  · exact fun c hc => List.mem_takeWhile_imp hc
  · exact fun c hc => List.mem_takeWhile_imp (List.mem_reverse.mp hc)

theorem trim_eq_self {s : Text} (hhead : ∀ c ∈ s.head?, isWhitespace c = false)
    (hlast : ∀ c ∈ s.getLast?, isWhitespace c = false) : trim s = s := by
  have hend : trimEnd s = s := by
    apply trimEnd_eq_self_iff.mpr
    intro h
    exact hlast _ (List.getLast?_eq_some_getLast h)
  rw [trim, hend]
  cases s with
  | nil => rfl
  | cons c s => exact trimStart_cons (hhead c rfl)

theorem head?_trim {s : Text} : ∀ c ∈ (trim s).head?, isWhitespace c = false := by
  intro c hc
  have h := List.head?_dropWhile_not isWhitespace (trimEnd s)
  rw [show (trimEnd s).dropWhile isWhitespace = trim s from rfl, hc] at h
  simpa using h

theorem getLast?_trim {s : Text} : ∀ c ∈ (trim s).getLast?, isWhitespace c = false := by
  intro c hc
  obtain ⟨front, hfront⟩ := (trimEnd s).dropWhile_suffix isWhitespace
  have hend : (trimEnd s).getLast? = some c := by
    rw [← hfront, List.getLast?_append, show (trimEnd s).dropWhile isWhitespace = trim s from rfl,
      Option.mem_def.mp hc]
    rfl
  have hne : trimEnd s ≠ [] := by
    intro hnil
    rw [hnil] at hend
    cases hend
  have htwice : trimEnd (trimEnd s) = trimEnd s := List.rdropWhile_idempotent isWhitespace s
  have hlast := trimEnd_eq_self_iff.mp htwice hne
  rw [List.getLast?_eq_some_getLast hne] at hend
  rw [← Option.some.inj hend]
  exact hlast

end Text
