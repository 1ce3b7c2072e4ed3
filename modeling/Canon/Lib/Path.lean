import Canon.Lib.Text

/-! # Lexical paths

    A path is a text.  What the host language reads from it is a list of
    components: repeated separators and inner `.` segments leave no trace, a
    leading `.` and every `..` do.

    * `components`, `isAbsolute`, `join`, `fileName`, `parent`: as in the standard
      library on Unix,
    * `resolve`: the place a path names when `..` is taken literally,
    * `Under`: one place lies inside another.

    Two paths are equal for the host language when their components are.
-/

inductive Component where
  | rootDir
  | curDir
  | parentDir
  | normal (name : Text)
deriving DecidableEq, Repr

abbrev FilePath := Text

namespace FilePath

variable (p : FilePath)

def isAbsolute : Bool := p.head? == some '/'

def segments : List Text := p.splitOn '/'

def componentOf (seg : Text) : Option Component :=
  if seg = [] || seg = ['.'] then none
  else if seg = ['.', '.'] then some .parentDir
  else some (.normal seg)

/-- The components behind the root and a leading `.`. -/
def body : List Component := (segments p).filterMap componentOf

def components : List Component :=
  if isAbsolute p then .rootDir :: body p
  else if (segments p).head? = some ['.'] then .curDir :: body p
  else body p

/-- Equality of the host language. -/
def same (p q : FilePath) : Bool := components p = components q

def startsWith (dir p : FilePath) : Bool := (components dir).isPrefixOf (components p)

def join (dir p : FilePath) : FilePath :=
  if isAbsolute p then p
  else if dir = [] || dir.getLast? = some '/' then dir ++ p
  else dir ++ '/' :: p

/-- The last component when it is a name. -/
def fileName : Option Text :=
  match (components p).getLast? with
  | some (.normal name) => some name
  | _ => none

/-- The shortest prefix that has all components but the last; nothing for the
    root and for the empty path. -/
def parent : Option FilePath :=
  match (components p).getLast? with
  | none | some .rootDir => none
  | some _ => p.inits.find? fun q => components q = (components p).dropLast

/-- What stands behind the last dot of a file name, unless the name starts there. -/
def extension (name : Text) : Option Text :=
  match name.reverse.span (· ≠ '.') with
  | (_, []) | (_, ['.']) => none
  | (ext, _) => some ext.reverse

/-! ### Places -/

/-- A place in lexical normal form: below the root, or a number of parents above
    the working directory, and then a list of names. -/
structure Place where
  rooted : Bool
  ups : Nat
  names : List Text
deriving DecidableEq, Repr

namespace Place

def start : Place := ⟨false, 0, []⟩

def step (l : Place) : Component → Place
  | .rootDir => ⟨true, 0, []⟩
  | .curDir => l
  | .parentDir =>
    if l.names ≠ [] then { l with names := l.names.dropLast }
    else if l.rooted then l
    else { l with ups := l.ups + 1 }
  | .normal name => { l with names := l.names ++ [name] }

def walk (l : Place) (cs : List Component) : Place := cs.foldl step l

end Place

def resolve (p : FilePath) : Place := Place.start.walk (components p)

/-- `p` names a place inside the one `dir` names. -/
def Under (dir p : FilePath) : Prop :=
  (resolve p).rooted = (resolve dir).rooted ∧ (resolve p).ups = (resolve dir).ups ∧
    (resolve dir).names <+: (resolve p).names

instance (dir p : FilePath) : Decidable (Under dir p) :=
  inferInstanceAs (Decidable (_ ∧ _ ∧ _))

/-! ### Walking components -/

namespace Place

theorem walk_append (l : Place) (cs ds : List Component) :
    l.walk (cs ++ ds) = (l.walk cs).walk ds := by
  simp [walk, List.foldl_append]

@[simp] theorem walk_nil (l : Place) : l.walk [] = l := rfl

@[simp] theorem walk_cons (l : Place) (c : Component) (cs : List Component) :
    l.walk (c :: cs) = (l.step c).walk cs := rfl

/-- The place `k` parents above `l`. -/
def ascend (l : Place) (k : Nat) : Place where
  rooted := l.rooted
  ups := if l.rooted then l.ups else l.ups + (k - l.names.length)
  names := l.names.take (l.names.length - k)

/-- Components that never go back to the root act from any place as they do from
    the start: first the parents, then the names. -/
theorem walk_eq_ascend (l : Place) {cs : List Component} (h : .rootDir ∉ cs) :
    l.walk cs =
      { l.ascend (start.walk cs).ups with
        names := (l.ascend (start.walk cs).ups).names ++ (start.walk cs).names } ∧
      (start.walk cs).rooted = false := by
  induction cs using List.reverseRecOn with
  | nil => simp [ascend, start]
  | append_singleton cs c ih =>
    obtain ⟨hl, hroot⟩ := ih (fun hc => h (List.mem_append_left _ hc))
    rw [walk_append, walk_append, hl]
    generalize start.walk cs = w at hroot ⊢
    cases c with
    | rootDir => simp at h
    | curDir => simp [step, hroot]
    | normal name => simp [step, hroot]
    | parentDir =>
      by_cases hw : w.names = []
      -- one more parent above `l`
      · by_cases ht : l.names.take (l.names.length - w.ups) = []
        · have hle : l.names.length ≤ w.ups := by
            rcases List.take_eq_nil_iff.mp ht with h0 | h0
            · omega
            · simp [h0]
          have h0 : l.names.length - (w.ups + 1) = 0 := by omega
          have h1 : l.names.length - w.ups = 0 := by omega
          by_cases hr : l.rooted
          · simp [step, hw, ascend, h0, h1, hroot, hr]
          · simp [step, hw, ascend, h0, h1, hroot, hr]
            omega
        · have hlt : w.ups < l.names.length := by
            by_contra hge
            have : l.names.length - w.ups = 0 := by omega
            simp [this] at ht
          have h0 : w.ups - l.names.length = 0 := by omega
          have h1 : w.ups + 1 - l.names.length = 0 := by omega
          have hdrop : (l.names.take (l.names.length - w.ups)).dropLast =
              l.names.take (l.names.length - (w.ups + 1)) := by
            rw [List.dropLast_eq_take, List.take_take, List.length_take]
            congr 1
            omega
          simp [step, hw, ascend, ht, hroot, h0, h1, hdrop]
      · have hne : l.names.take (l.names.length - w.ups) ++ w.names ≠ [] := by
          simp [hw]
        simp only [walk_cons, walk_nil, step, ascend, hw, hne, ne_eq, not_false_eq_true, if_true,
          List.dropLast_append_of_ne_nil hw, hroot, and_self]

end Place

theorem rootDir_not_mem_body (p : FilePath) : .rootDir ∉ body p := by
  intro h
  obtain ⟨seg, -, hseg⟩ := List.mem_filterMap.mp h
  simp only [componentOf] at hseg
  split at hseg
  · cases hseg
  · split at hseg <;> cases hseg

/-- The leading `.` names no other place. -/
theorem resolve_eq (p : FilePath) :
    resolve p = (if isAbsolute p then ⟨true, 0, []⟩ else Place.start : Place).walk (body p) := by
  unfold resolve components
  split
  · simp [Place.step]
  · split <;> simp [Place.step]

theorem resolve_rooted (p : FilePath) : (resolve p).rooted = isAbsolute p := by
  rw [resolve_eq, (Place.walk_eq_ascend _ (rootDir_not_mem_body p)).1]
  split <;> simp_all [Place.ascend, Place.start]

theorem resolve_ups_of_isAbsolute {p : FilePath} (h : isAbsolute p) : (resolve p).ups = 0 := by
  rw [resolve_eq, (Place.walk_eq_ascend _ (rootDir_not_mem_body p)).1]
  simp [h, Place.ascend]

/-! ### Joining -/

theorem segments_append_cons (d p : FilePath) :
    segments (d ++ '/' :: p) = segments d ++ segments p :=
  List.splitOn_append_cons_self d p

theorem body_append_cons (d p : FilePath) : body (d ++ '/' :: p) = body d ++ body p := by
  simp [body, segments_append_cons]

@[simp] theorem body_nil : body [] = [] := by decide

theorem isAbsolute_append {d : FilePath} (h : d ≠ []) (p : FilePath) :
    isAbsolute (d ++ p) = isAbsolute d := by
  cases d with
  | nil => exact absurd rfl h
  | cons c d => rfl

theorem body_join {dir p : FilePath} (h : isAbsolute p = false) :
    body (join dir p) = body dir ++ body p := by
  unfold join
  rw [if_neg (by simp [h])]
  by_cases hd : dir = []
  · simp [hd]
  · by_cases hslash : dir.getLast? = some '/'
    · obtain ⟨d, rfl⟩ := List.getLast?_eq_some_iff.mp hslash
      have hd' : body (d ++ ['/']) = body d := by
        rw [body_append_cons, body_nil, List.append_nil]
      rw [if_pos (by simp), List.append_assoc, List.singleton_append, body_append_cons, hd']
    · rw [if_neg (by simp [hd, hslash]), body_append_cons]

theorem isAbsolute_join {dir p : FilePath} (h : isAbsolute p = false) :
    isAbsolute (join dir p) = isAbsolute dir := by
  unfold join
  rw [if_neg (by simp [h])]
  by_cases hd : dir = []
  · rw [if_pos (by simp [hd]), hd, List.nil_append, h]
    rfl
  · split
    · exact isAbsolute_append hd p
    · exact isAbsolute_append hd _

/-- A relative path is walked from the place of the directory. -/
theorem resolve_join {dir p : FilePath} (h : isAbsolute p = false) :
    resolve (join dir p) = (resolve dir).walk (body p) := by
  rw [resolve_eq, resolve_eq, body_join h, isAbsolute_join h, Place.walk_append]

/-! ### Staying inside a directory -/

/-- When `p` stays inside `dir`, told from the two places apart.  An absolute
    path has to repeat the directory's names.  A relative one may go up, but then
    it has to come back through the names it left. -/
def Inside (dir p : FilePath) : Prop :=
  if isAbsolute p then isAbsolute dir ∧ (resolve dir).names <+: (resolve p).names
  else (isAbsolute dir ∨ (resolve p).ups ≤ (resolve dir).names.length) ∧
    (resolve dir).names.drop ((resolve dir).names.length - (resolve p).ups) <+: (resolve p).names

instance (dir p : FilePath) : Decidable (Inside dir p) :=
  inferInstanceAs (Decidable (ite _ _ _))

theorem under_join_iff (dir p : FilePath) : Under dir (join dir p) ↔ Inside dir p := by
  unfold Under Inside
  by_cases hp : isAbsolute p
  · have hjoin : join dir p = p := by simp [join, hp]
    rw [if_pos hp, hjoin, resolve_rooted, resolve_rooted, resolve_ups_of_isAbsolute hp, hp]
    constructor
    · rintro ⟨hroot, -, hnames⟩
      exact ⟨hroot.symm, hnames⟩
    · rintro ⟨hroot, hnames⟩
      exact ⟨hroot.symm, (resolve_ups_of_isAbsolute hroot).symm, hnames⟩
  · have hp' : isAbsolute p = false := by simpa using hp
    have hplace : Place.start.walk (body p) = resolve p := by simp [resolve_eq, hp]
    rw [if_neg hp, resolve_join hp', (Place.walk_eq_ascend _ (rootDir_not_mem_body p)).1, hplace,
      ← resolve_rooted dir]
    generalize resolve dir = d
    generalize resolve p = r
    have hups : (d.ascend r.ups).ups = d.ups ↔ d.rooted ∨ r.ups ≤ d.names.length := by
      by_cases hd : d.rooted
      · simp [Place.ascend, hd]
      · simp only [Place.ascend, hd, Bool.false_eq_true, if_false, false_or]
        omega
    have hnames : d.names <+: d.names.take (d.names.length - r.ups) ++ r.names ↔
        d.names.drop (d.names.length - r.ups) <+: r.names := by
      conv_lhs => lhs; rw [← List.take_append_drop (d.names.length - r.ups) d.names]
      exact List.prefix_append_right_inj _
    show d.rooted = d.rooted ∧ (d.ascend r.ups).ups = d.ups ∧
      d.names <+: d.names.take (d.names.length - r.ups) ++ r.names ↔ _
    rw [hups, hnames]
    simp

/-- A relative path without `..` stays inside every directory. -/
theorem inside_of_no_parent {dir p : FilePath} (habs : isAbsolute p = false)
    (h : .parentDir ∉ components p) : Inside dir p := by
  have hups : (resolve p).ups = 0 := by
    have hwalk : ∀ (cs : List Component) (l : Place), .parentDir ∉ cs → .rootDir ∉ cs →
        (l.walk cs).ups = l.ups := by
      intro cs
      induction cs with
      | nil => intro l _ _; rfl
      | cons c cs ih =>
        intro l hparent hroot
        rw [Place.walk_cons, ih _ (fun h => hparent (List.mem_cons_of_mem _ h))
          (fun h => hroot (List.mem_cons_of_mem _ h))]
        cases c with
        | rootDir => simp at hroot
        | parentDir => simp at hparent
        | curDir => rfl
        | normal name => rfl
    rw [resolve_eq, if_neg (by simp [habs])]
    refine (hwalk _ _ ?_ (rootDir_not_mem_body p)).trans rfl
    intro hb
    apply h
    unfold components
    rw [if_neg (by simp [habs])]
    split
    · exact List.mem_cons_of_mem _ hb
    · exact hb
  unfold Inside
  rw [if_neg (by simp [habs]), hups]
  exact ⟨Or.inr (Nat.zero_le _), by simp⟩

end FilePath
