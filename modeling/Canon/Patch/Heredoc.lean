import Canon.Patch.Faults

/-! # Patches in a here-document

    The lenient mode is there for patches that come wrapped in a here-document.  It
    gets the lines of the text, looks in the last of them for what follows a line
    feed, and finds nothing.

    * `parsePatch_heredoc`: no here-document is read,
    * `heredoc_lenient_iff`: it should not have been read exactly when the inner text
      is no patch.
-/

namespace Canon.Patch

/-! ### Here-documents -/

inductive Opening where
  | bare
  | singleQuoted
  | doubleQuoted
deriving DecidableEq, Repr

def Opening.line : Opening → Text
  | .bare => "<<EOF".toList
  | .singleQuoted => "<<'EOF'".toList
  | .doubleQuoted => "<<\"EOF\"".toList

/-- A text between an opening line and a line that ends in `EOF`. -/
structure Heredoc where
  opening : Opening
  inner : Text
  closing : Text
  noFeed : '\n' ∉ closing
  ends : "EOF".toList <:+ closing

def Heredoc.text (h : Heredoc) : Text :=
  h.opening.line ++ '\n' :: (h.inner ++ '\n' :: h.closing)

/-- The wrapped patch is read as the inner one is. -/
structure ReadLeniently (h : Heredoc) : Prop where
  succeeds : (∃ args, parsePatchText h.text .lenient = .ok args) ↔
    ∃ args, parsePatchText h.inner .strict = .ok args
  hunks : ∀ args args', parsePatchText h.text .lenient = .ok args →
    parsePatchText h.inner .strict = .ok args' → args.hunks = args'.hunks

/-- The markers stand on the first and the last line, and every line between them can
    be read. -/
def IsPatch (text : Text) : Prop :=
  checkPatchBoundariesStrict (Text.lines (Text.trim text)) = .ok () ∧
    firstFault .hunk 2 (patchBody text) = none

/-- Strict parsing succeeds on the patches. -/
theorem parse_strict_iff (text : Text) :
    (∃ args, parsePatchText text .strict = .ok args) ↔ IsPatch text := by
  have hmode : parsePatchText text .strict = parsePatch text :=
    (parsePatchText_mode text .lenient).symm
  have hfault := firstFault_parseHunks (patchBody text).length (patchBody text) 2 (Nat.le_refl _)
  rw [hmode, parsePatch_eq, IsPatch]
  match hcheck : checkPatchBoundariesStrict (Text.lines (Text.trim text)) with
  | .error e =>
    constructor
    · rintro ⟨args, hargs⟩
      cases hargs
    · intro h
      cases h.1
  | .ok () =>
    match hhunks : parseHunks (patchBody text).length (patchBody text) 2 with
    | .ok hunks =>
      rw [hhunks] at hfault
      simp only [Except.bind]
      exact ⟨fun _ => ⟨trivial, hfault⟩, fun _ => ⟨_, rfl⟩⟩
    | .error e =>
      rw [hhunks] at hfault
      simp only [Except.bind]
      constructor
      · rintro ⟨args, hargs⟩
        cases hargs
      · intro h
        -- An error comes with a fault.
        match hfault with
        | .inl ⟨message, m, _, hm⟩ => exact absurd (h.2.symm.trans hm) (by simp)
        | .inr ⟨message, m, _, hm⟩ => exact absurd (h.2.symm.trans hm) (by simp)

/-! ### The lines of the wrapped text -/

section Wrapped

variable (h : Heredoc)

theorem Heredoc.trim_text : Text.trim h.text = h.text := by
  obtain ⟨front, hclosing⟩ := h.ends
  -- The text ends in a letter and starts with a less-than sign.
  have hend : Text.trimEnd h.text = h.text := by
    have htail : h.text = (h.opening.line ++ '\n' :: (h.inner ++ '\n' :: (front ++ ['E', 'O']))) ++
        ['F'] := by
      rw [Heredoc.text, ← hclosing]
      simp
    rw [htail, Text.trimEnd_concat, if_neg (by decide)]
  rw [Text.trim, hend, Heredoc.text]
  cases h.opening with
  | bare => rfl
  | singleQuoted => rfl
  | doubleQuoted => rfl

theorem Opening.line_spec (o : Opening) :
    Text.trim o.line ≠ beginPatchMarker ∧ Text.stripCr o.line = o.line ∧
      o.line.splitOn '\n' = [o.line] := by
  cases o <;> decide

theorem Heredoc.lines_head : (Text.lines (Text.trim h.text)).head? = some h.opening.line := by
  obtain ⟨_, hcr, hsplit⟩ := h.opening.line_spec
  rw [h.trim_text, Text.lines, Heredoc.text, List.splitOn_append_cons_self, hsplit]
  obtain ⟨first, others, hparts⟩ := List.exists_cons_of_ne_nil
    (List.splitOn_ne_nil '\n' (h.inner ++ '\n' :: h.closing))
  rw [hparts]
  show some (Text.stripCr h.opening.line) = some h.opening.line
  rw [hcr]

/-- A text that does not start with the begin marker is refused. -/
theorem boundaries_of_head {lines : List Text} {first : Text} (hhead : lines.head? = some first)
    (hne : Text.trim first ≠ beginPatchMarker) :
    checkPatchBoundariesStrict lines =
      .error (.invalidPatchError ("patch should start with ".toList ++ beginPatchMarker)) := by
  rw [checkPatchBoundariesStrict, hhead, checkStartAndEndLinesStrict]
  have hfirst : (some first).map Text.trim ≠ some beginPatchMarker := by
    intro h
    exact hne (Option.some.inj h)
  rw [if_neg (fun hboth => hfirst hboth.1), if_pos ⟨rfl, hfirst⟩]

/-- The opening line is taken for the first line of the patch. -/
theorem parsePatch_heredoc (mode : ParseMode) :
    parsePatchText h.text mode =
      .error (.invalidPatchError ("patch should start with ".toList ++ beginPatchMarker)) := by
  rw [parsePatchText, boundedLines_lines,
    boundaries_of_head h.lines_head h.opening.line_spec.1]
  rfl

/-- The lenient mode does what it is for on the texts that are no patch. -/
theorem heredoc_lenient_iff : ReadLeniently h ↔ ¬ IsPatch h.inner := by
  have hrefused : ∀ args, parsePatchText h.text .lenient ≠ .ok args := by
    intro args hargs
    rw [parsePatch_heredoc] at hargs
    cases hargs
  constructor
  · intro hread hpatch
    obtain ⟨args, hargs⟩ := hread.succeeds.mpr ((parse_strict_iff h.inner).mpr hpatch)
    exact hrefused args hargs
  · intro hpatch
    constructor
    · constructor
      · rintro ⟨args, hargs⟩
        exact absurd hargs (hrefused args)
      · intro hstrict
        exact absurd ((parse_strict_iff h.inner).mp hstrict) hpatch
    · intro args args' hargs
      exact absurd hargs (hrefused args)

end Wrapped

/-- A deletion in a here-document. -/
def wrappedDeletion : Heredoc where
  opening := .singleQuoted
  inner := "*** Begin Patch\n*** Delete File: a\n*** End Patch".toList
  closing := "EOF".toList
  noFeed := by decide
  ends := List.suffix_rfl

/-- The inner patch is read and the wrapped one is not. -/
theorem wrapped_deletion_refused :
    (parsePatchText wrappedDeletion.inner .strict).map (·.hunks) = .ok [.deleteFile "a".toList] ∧
    parsePatchText wrappedDeletion.text .lenient =
      .error (.invalidPatchError "patch should start with *** Begin Patch".toList) ∧
    ¬ ReadLeniently wrappedDeletion := by
  have hinner : ((parsePatchText wrappedDeletion.inner .strict).map (·.hunks)) =
      .ok [.deleteFile "a".toList] := by decide +kernel
  have houter : parsePatchText wrappedDeletion.text .lenient =
      .error (.invalidPatchError "patch should start with *** Begin Patch".toList) :=
    parsePatch_heredoc wrappedDeletion .lenient
  refine ⟨hinner, houter, ?_⟩
  intro hread
  match hparse : parsePatchText wrappedDeletion.inner .strict with
  | .error e => rw [hparse] at hinner; cases hinner
  | .ok args =>
    obtain ⟨args', hargs'⟩ := hread.succeeds.mpr ⟨args, hparse⟩
    rw [houter] at hargs'
    cases hargs'

end Canon.Patch
