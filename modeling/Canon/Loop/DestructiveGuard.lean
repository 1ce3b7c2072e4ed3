import Canon.Lib.Words
import Canon.Loop.Act

/-! # What the guard against destructive commands sees

    The guard looks for four spellings of `rm` with flags and then at one word, the
    last one without a dash, and compares its components with those of the
    workspace.  Other spellings, other targets, and `..` on the way out escape it.
    This module says exactly which removals outside the workspace it reports.
-/

namespace Canon.Loop

open Act

/-! ### Invocations of `rm` -/

/-- A word that `rm` reads as flags. -/
def isFlagWord (word : Text) : Bool := Text.startsWith "-" word && word ≠ ['-']

/-- The flags among the words behind `rm`; none behind `--`. -/
def rmFlags : List Text → List Text
  | [] => []
  | word :: words =>
    if word = ['-', '-'] then []
    else if isFlagWord word then word :: rmFlags words
    else rmFlags words

/-- The targets among the words behind `rm`; all of them behind `--`. -/
def rmTargets : List Text → List Text
  | [] => []
  | word :: words =>
    if word = ['-', '-'] then words
    else if isFlagWord word then rmTargets words
    else word :: rmTargets words

/-- A long flag may be shortened. -/
def isLongFlag (flag : Text) (word : Text) : Bool :=
  2 < word.length && Text.startsWith "--" word && Text.startsWith word flag

/-- The flags for recursion and force, alone, together with others, or spelled out. -/
def recursesOrForces (flag : Text) : Bool :=
  if Text.startsWith "--" flag then
    isLongFlag "--recursive" flag || isLongFlag "--force" flag
  else flag.any fun c => c = 'r' || c = 'R' || c = 'f'

variable (workspace : FilePath) (cmd : Text)

/-- The words behind `rm` in a command that runs it with such a flag. -/
def RmInvocation (args : List Text) : Prop :=
  Text.splitWhitespace cmd = ['r', 'm'] :: args ∧ (rmFlags args).any recursesOrForces = true

instance (cmd : Text) (args : List Text) : Decidable (RmInvocation cmd args) :=
  inferInstanceAs (Decidable (_ ∧ _))

/-- Some target is outside the workspace once `.` and `..` are resolved. -/
def RemovesOutside (args : List Text) : Prop :=
  ∃ target ∈ rmTargets args, ¬ FilePath.Under workspace (FilePath.join workspace target)

instance (workspace : FilePath) (args : List Text) : Decidable (RemovesOutside workspace args) :=
  inferInstanceAs (Decidable (∃ target ∈ rmTargets args, _))

/-! ### What is reported -/

/-- One of the four spellings the guard knows. -/
def KnownSpelling : Prop :=
  Text.contains "rm -rf" (Text.trim cmd) ∨ Text.contains "rm -fr" (Text.trim cmd) ∨
    Text.contains "rm -r " (Text.trim cmd) ∨ Text.contains "rm -f " (Text.trim cmd)

/-- The last word without a dash is an absolute path that does not begin with the
    components of the workspace. -/
def EndsOutside : Prop :=
  ∃ word, (Text.splitWhitespace cmd).reverse.find? (!Text.startsWith "-" ·) = some word ∧
    FilePath.isAbsolute word = true ∧
      ¬ FilePath.components workspace <+: FilePath.components word

/-- A dangerous command of another kind inside the text. -/
def MentionsGit : Prop :=
  Text.contains "git reset --hard" (Text.trim cmd) ∨ Text.contains "git clean -f" (Text.trim cmd)

theorem head?_segments_join {workspace target : FilePath} (hne : workspace ≠ [])
    (h : FilePath.isAbsolute target = false) :
    (FilePath.segments (FilePath.join workspace target)).head? =
      (FilePath.segments workspace).head? := by
  have hcons : ∀ d p : FilePath, (FilePath.segments (d ++ '/' :: p)).head? =
      (FilePath.segments d).head? := by
    intro d p
    have hd : FilePath.segments d ≠ [] := List.splitOnP_ne_nil _ _
    rw [FilePath.segments_append_cons, List.head?_append_of_ne_nil _ hd]
  unfold FilePath.join
  rw [if_neg (by simp [h])]
  by_cases hslash : workspace.getLast? = some '/'
  · obtain ⟨d, rfl⟩ := List.getLast?_eq_some_iff.mp hslash
    rw [if_pos (by simp), List.append_assoc, List.singleton_append, hcons, hcons]
  · rw [if_neg (by simp [hne, hslash]), hcons]

/-- What the guard needs to see in an invocation of `rm`. -/
def Caught : Prop :=
  (KnownSpelling cmd ∧ EndsOutside workspace cmd) ∨ (¬ KnownSpelling cmd ∧ MentionsGit cmd)

/-- A relative path is never outside for the guard, whatever parents it names. -/
theorem startsWith_join {workspace target : FilePath}
    (h : FilePath.isAbsolute target = false) :
    FilePath.startsWith workspace (FilePath.join workspace target) = true := by
  have hbody : FilePath.body workspace <+: FilePath.body (FilePath.join workspace target) := by
    rw [FilePath.body_join h]
    exact List.prefix_append _ _
  unfold FilePath.startsWith FilePath.components
  rw [List.isPrefixOf_iff_prefix, FilePath.isAbsolute_join h]
  by_cases habs : FilePath.isAbsolute workspace = true
  · rw [if_pos habs, if_pos habs]
    exact List.cons_prefix_cons.mpr ⟨rfl, hbody⟩
  · rw [if_neg habs, if_neg habs]
    by_cases hne : workspace = []
    · rw [hne]
      exact List.nil_prefix
    · rw [head?_segments_join hne h]
      split
      · exact List.cons_prefix_cons.mpr ⟨rfl, hbody⟩
      · exact hbody

/-- The check of a known spelling: it is about the last word without a dash. -/
theorem outside_iff {workspace : FilePath} {cmd word : Text}
    (hword : (Text.splitWhitespace cmd).reverse.find? (!Text.startsWith "-" ·) = some word) :
    (!FilePath.startsWith workspace
        (if FilePath.isAbsolute word then word else FilePath.join workspace word)) = true ↔
      EndsOutside workspace cmd := by
  have hends : EndsOutside workspace cmd ↔ FilePath.isAbsolute word = true ∧
      ¬ FilePath.components workspace <+: FilePath.components word := by
    constructor
    · rintro ⟨word', hword', habs, hout⟩
      obtain rfl := Option.some.inj (hword.symm.trans hword')
      exact ⟨habs, hout⟩
    · intro h
      exact ⟨word, hword, h⟩
  rw [hends]
  by_cases habs : FilePath.isAbsolute word = true
  · rw [if_pos habs, FilePath.startsWith, Bool.not_eq_true', ← Bool.not_eq_true,
      List.isPrefixOf_iff_prefix]
    simp [habs]
  · have hrel : FilePath.isAbsolute word = false := by simpa using habs
    rw [if_neg habs, startsWith_join hrel]
    simp [hrel]

/-- Which invocations of `rm` are reported at all. -/
theorem reported_iff {cmd : Text} {args : List Text} (hrm : RmInvocation cmd args)
    (workspace : FilePath) :
    isPotentiallyDestructive cmd workspace = true ↔ Caught workspace cmd := by
  have hwords := hrm.1
  -- The command itself is a word without a dash.
  obtain ⟨word, hword⟩ : ∃ word,
      (Text.splitWhitespace cmd).reverse.find? (!Text.startsWith "-" ·) = some word := by
    apply Option.isSome_iff_exists.mp
    rw [List.find?_isSome]
    exact ⟨['r', 'm'], by simp [hwords], by decide⟩
  have hknown : (Text.contains "rm -rf" (Text.trim cmd) || Text.contains "rm -fr" (Text.trim cmd) ||
      Text.contains "rm -r " (Text.trim cmd) || Text.contains "rm -f " (Text.trim cmd)) = true ↔
        KnownSpelling cmd := by
    simp [KnownSpelling, or_assoc]
  unfold isPotentiallyDestructive
  dsimp only
  rw [Text.splitWhitespace_trim, hword, Option.getD_some]
  by_cases hspelled : KnownSpelling cmd
  · rw [if_pos (hknown.mpr hspelled), outside_iff hword]
    simp [Caught, hspelled]
  · rw [if_neg (fun h => hspelled (hknown.mp h))]
    -- Commands of the other kinds begin with another word.
    obtain ⟨rest, hrest⟩ := Text.first_word_prefix_trim hwords
    have hstart :
      (Text.startsWith "dd " (Text.trim cmd) || Text.startsWith "mkfs" (Text.trim cmd) ||
        Text.startsWith "shred " (Text.trim cmd)) = false := by
      rw [← hrest]
      rfl
    simp only [Bool.or_assoc] at hstart ⊢
    rw [hstart]
    simp [Caught, hspelled, MentionsGit]

/-- **Which removals outside the workspace are reported**: those with a known spelling
    whose last word without a dash is an absolute path outside, and those without one
    that mention a dangerous `git` command. -/
theorem removal_reported_iff (cmd : Text) (workspace : FilePath) (args : List Text)
    (hrm : RmInvocation cmd args) :
    (RemovesOutside workspace args → isPotentiallyDestructive cmd workspace = true) ↔
      (RemovesOutside workspace args → Caught workspace cmd) :=
  imp_congr_right fun _ => reported_iff hrm workspace

theorem removal_reported_root :
    RmInvocation "rm -rf /etc".toList ["-rf".toList, "/etc".toList] ∧
      isPotentiallyDestructive "rm -rf /etc".toList "/work".toList = true := by
  have hrm : RmInvocation "rm -rf /etc".toList ["-rf".toList, "/etc".toList] := by decide
  have hcaught : Caught "/work".toList "rm -rf /etc".toList :=
    .inl ⟨.inl (by decide), "/etc".toList, by decide, by decide, by decide⟩
  exact ⟨hrm, (removal_reported_iff _ _ _ hrm).mpr (fun _ => hcaught) (by decide)⟩

theorem removal_escapes :
    RmInvocation "rm -rf ../home".toList ["-rf".toList, "../home".toList] ∧
      RemovesOutside "/work".toList ["-rf".toList, "../home".toList] ∧
      isPotentiallyDestructive "rm -rf ../home".toList "/work".toList = false := by
  decide

end Canon.Loop
