import Canon.Editor.UseTrees

/-! # Rewriting paths

    `PathRewriter::visit_path_mut` on `syn::Path`.  A path whose segments change is built
    again from their names; a path that does not is left to the default visitor, which goes
    into the generic arguments.
-/

namespace Canon.Editor

/-! ### Paths -/

mutual

inductive Path where
  | mk (leadingColon : Bool) (segments : List Segment)

inductive Segment where
  | mk (ident : Text) (arguments : Arguments)

/-- The return type of the parenthesized form is a token where there is none. -/
inductive Arguments where
  | none
  | angleBracketed (args : List Syntax)
  | parenthesized (inputs : List Syntax) (output : Syntax)

/-- A type, an expression, a bound or another piece of source, by the paths in it. -/
inductive Syntax where
  | token (text : Text)
  | node (children : List Syntax)
  | path (path : Path)

end

def Segment.ident : Segment → Text
  | .mk ident _ => ident

def Segment.arguments : Segment → Arguments
  | .mk _ arguments => arguments

def Arguments.isNone : Arguments → Bool
  | .none => true
  | .angleBracketed _ => false
  | .parenthesized _ _ => false

/-! ### The visitor -/

section Visitor

variable (isIdent : Text → Bool) (rw : PathRewriter)

def bareSegments : List Text → Option (List Segment)
  | [] => some []
  | s :: rest => do
    let ident ← identNew isIdent s
    let segments ← bareSegments rest
    some (.mk ident .none :: segments)

mutual

/-- The path and the `changed` flag; nothing is a panic.  The new segments have no
    arguments for the default visitor to go into. -/
def visitPath : Path → Option (Path × Bool)
  | .mk leadingColon segments => do
    let idents := segments.map Segment.ident
    let rewritten := rw.rewriteSegments idents
    if rewritten ≠ idents then
      let bare ← bareSegments isIdent rewritten
      some (.mk leadingColon bare, true)
    else
      let e ← visitSegments segments
      some (.mk leadingColon e.1, e.2)

def visitSegments : List Segment → Option (List Segment × Bool)
  | [] => some ([], false)
  | segment :: segments => do
    let e ← visitSegment segment
    let es ← visitSegments segments
    some (e.1 :: es.1, e.2 || es.2)

def visitSegment : Segment → Option (Segment × Bool)
  | .mk ident arguments => do
    let e ← visitArguments arguments
    some (.mk ident e.1, e.2)

def visitArguments : Arguments → Option (Arguments × Bool)
  | .none => some (.none, false)
  | .angleBracketed args => do
    let e ← visitAll args
    some (.angleBracketed e.1, e.2)
  | .parenthesized inputs output => do
    let e ← visitAll inputs
    let o ← visitSyntax output
    some (.parenthesized e.1 o.1, e.2 || o.2)

def visitSyntax : Syntax → Option (Syntax × Bool)
  | .token text => some (.token text, false)
  | .node children => do
    let e ← visitAll children
    some (.node e.1, e.2)
  | .path path => do
    let e ← visitPath path
    some (.path e.1, e.2)

def visitAll : List Syntax → Option (List Syntax × Bool)
  | [] => some ([], false)
  | child :: children => do
    let e ← visitSyntax child
    let es ← visitAll children
    some (e.1 :: es.1, e.2 || es.2)

end

/-! ### What a rewriting should do -/

/-- The segments of a rewritten path: counted from the end every argument list stays where
    it was.  Nothing where a list would have no segment left. -/
def attach (idents : List Text) (arguments : List Arguments) : Option (List Segment) :=
  let kept := List.replicate (idents.length - arguments.length) Arguments.none ++
    arguments.drop (arguments.length - idents.length)
  if (arguments.take (arguments.length - idents.length)).all Arguments.isNone then
    some (idents.zipWith Segment.mk kept)
  else none

mutual

/-- Only the names of the leading segments change, here and in the nested paths. -/
def renamedPath : Path → Option Path
  | .mk leadingColon segments => do
    let segments' ← renamedSegments segments
    let renamed ← attach (rw.rewriteSegments (segments.map Segment.ident))
      (segments'.map Segment.arguments)
    some (.mk leadingColon renamed)

def renamedSegments : List Segment → Option (List Segment)
  | [] => some []
  | segment :: segments => do
    let segment' ← renamedSegment segment
    let segments' ← renamedSegments segments
    some (segment' :: segments')

def renamedSegment : Segment → Option Segment
  | .mk ident arguments => do
    let arguments' ← renamedArguments arguments
    some (.mk ident arguments')

def renamedArguments : Arguments → Option Arguments
  | .none => some .none
  | .angleBracketed args => do
    let args' ← renamedAll args
    some (.angleBracketed args')
  | .parenthesized inputs output => do
    let inputs' ← renamedAll inputs
    let output' ← renamedSyntax output
    some (.parenthesized inputs' output')

def renamedSyntax : Syntax → Option Syntax
  | .token text => some (.token text)
  | .node children => do
    let children' ← renamedAll children
    some (.node children')
  | .path path => do
    let path' ← renamedPath path
    some (.path path')

def renamedAll : List Syntax → Option (List Syntax)
  | [] => some []
  | child :: children => do
    let child' ← renamedSyntax child
    let children' ← renamedAll children
    some (child' :: children')

end

/-! ### When the arguments are kept -/

mutual

/-- A path that is rewritten has no argument lists, and its new segments are all accepted as
    identifiers; in a path that is not, this holds of the nested paths. -/
def ArgumentsKept : Path → Prop
  | .mk _ segments =>
    if rw.rewriteSegments (segments.map Segment.ident) ≠ segments.map Segment.ident then
      AllIdents isIdent (rw.rewriteSegments (segments.map Segment.ident)) ∧
        ∀ segment ∈ segments, segment.arguments = .none
    else KeptSegments segments

def KeptSegments : List Segment → Prop
  | [] => True
  | segment :: segments => KeptSegment segment ∧ KeptSegments segments

def KeptSegment : Segment → Prop
  | .mk _ arguments => KeptArguments arguments

def KeptArguments : Arguments → Prop
  | .none => True
  | .angleBracketed args => KeptChildren args
  | .parenthesized inputs output => KeptChildren inputs ∧ KeptSyntax output

def KeptSyntax : Syntax → Prop
  | .token _ => True
  | .node children => KeptChildren children
  | .path path => ArgumentsKept path

def KeptChildren : List Syntax → Prop
  | [] => True
  | child :: children => KeptSyntax child ∧ KeptChildren children

end

end Visitor

/-! ### The visitor and what it should do -/

/-- The visitor does not panic and does what it should. -/
def Agree {α : Type} (visited : Option (α × Bool)) (renamed : Option α) : Prop :=
  ∃ e, visited = some e ∧ renamed = some e.1

section Agree

variable {α β γ : Type}

theorem agree_map {c : α → β} (hc : ∀ a b, c a = c b → a = b) {visited : Option (α × Bool)}
    {renamed : Option α} :
    Agree (visited.bind fun e => some (c e.1, e.2)) (renamed.bind fun a => some (c a)) ↔
      Agree visited renamed := by
  constructor
  · intro ⟨e, hvisited, hrenamed⟩
    obtain ⟨e', he', heq⟩ := Option.bind_eq_some_iff.mp hvisited
    obtain ⟨a, ha, heq'⟩ := Option.bind_eq_some_iff.mp hrenamed
    rw [← Option.some.inj heq] at heq'
    refine ⟨e', he', ?_⟩
    rw [ha, hc _ _ (Option.some.inj heq')]
  · intro ⟨e, hvisited, hrenamed⟩
    exact ⟨(c e.1, e.2), by rw [hvisited]; rfl, by rw [hrenamed]; rfl⟩

theorem agree_map₂ {c : α → β → γ} (hc : ∀ a b a' b', c a b = c a' b' → a = a' ∧ b = b')
    {visited : Option (α × Bool)} {renamed : Option α} {visited' : Option (β × Bool)}
    {renamed' : Option β} :
    Agree (visited.bind fun e => visited'.bind fun e' => some (c e.1 e'.1, e.2 || e'.2))
        (renamed.bind fun a => renamed'.bind fun b => some (c a b)) ↔
      Agree visited renamed ∧ Agree visited' renamed' := by
  constructor
  · intro ⟨e, hvisited, hrenamed⟩
    obtain ⟨e₁, he₁, hvisited⟩ := Option.bind_eq_some_iff.mp hvisited
    obtain ⟨e₂, he₂, heq⟩ := Option.bind_eq_some_iff.mp hvisited
    obtain ⟨a, ha, hrenamed⟩ := Option.bind_eq_some_iff.mp hrenamed
    obtain ⟨b, hb, heq'⟩ := Option.bind_eq_some_iff.mp hrenamed
    rw [← Option.some.inj heq] at heq'
    obtain ⟨rfl, rfl⟩ := hc _ _ _ _ (Option.some.inj heq')
    exact ⟨⟨e₁, he₁, ha⟩, ⟨e₂, he₂, hb⟩⟩
  · intro ⟨⟨e₁, he₁, ha⟩, ⟨e₂, he₂, hb⟩⟩
    exact ⟨(c e₁.1 e₂.1, e₁.2 || e₂.2), by rw [he₁, he₂]; rfl, by rw [ha, hb]; rfl⟩

end Agree

section Segments

variable {isIdent : Text → Bool} {rw : PathRewriter}

theorem bareSegments_eq_some {idents : List Text} {bare : List Segment} :
    bareSegments isIdent idents = some bare ↔
      AllIdents isIdent idents ∧ bare = idents.map fun s => .mk s .none := by
  induction idents generalizing bare with
  | nil =>
    have hall : AllIdents isIdent [] := fun _ hs => absurd hs List.not_mem_nil
    simp [bareSegments, hall, eq_comm]
  | cons s idents ih =>
    rw [bareSegments, Option.bind_eq_bind, Option.bind_eq_some_iff, allIdents_cons]
    constructor
    · intro hsome
      obtain ⟨ident, hident, h⟩ := hsome
      obtain ⟨hs, rfl⟩ := identNew_eq_some.mp hident
      obtain ⟨rest, hrest, heq⟩ := Option.bind_eq_some_iff.mp h
      obtain ⟨hall, rfl⟩ := ih.mp hrest
      exact ⟨⟨hs, hall⟩, (Option.some.inj heq).symm⟩
    · intro hidents
      obtain ⟨⟨hs, hall⟩, hbare⟩ := hidents
      exact ⟨s, identNew_eq_some.mpr ⟨hs, rfl⟩,
        Option.bind_eq_some_iff.mpr ⟨_, ih.mpr ⟨hall, rfl⟩, by rw [hbare]; rfl⟩⟩

theorem isNone_iff {arguments : Arguments} : arguments.isNone = true ↔ arguments = .none := by
  cases arguments with
  | none => exact ⟨fun _ => rfl, fun _ => rfl⟩
  | angleBracketed args => exact ⟨fun h => (by cases h), fun h => (by cases h)⟩
  | parenthesized inputs output => exact ⟨fun h => (by cases h), fun h => (by cases h)⟩

/-- The names and the nested arguments come from the same segments. -/
theorem renamedSegments_spec : ∀ {segments segments' : List Segment},
    renamedSegments rw segments = some segments' →
      segments'.map Segment.ident = segments.map Segment.ident ∧
      ((∀ s ∈ segments', s.arguments = .none) ↔ ∀ s ∈ segments, s.arguments = .none)
  | [], segments', h => by
    rw [← Option.some.inj (h.symm.trans (renamedSegments.eq_1 rw)).symm]
    exact ⟨rfl, Iff.rfl⟩
  | .mk ident arguments :: segments, segments', h => by
    rw [renamedSegments, Option.bind_eq_bind, Option.bind_eq_some_iff] at h
    obtain ⟨segment', hsegment, h⟩ := h
    obtain ⟨rest, hrest, heq⟩ := Option.bind_eq_some_iff.mp h
    rw [renamedSegment, Option.bind_eq_bind, Option.bind_eq_some_iff] at hsegment
    obtain ⟨arguments', harguments, hsegment⟩ := hsegment
    obtain ⟨hidents, hnone⟩ := renamedSegments_spec hrest
    rw [← Option.some.inj heq, ← Option.some.inj hsegment, List.map_cons, List.map_cons, hidents,
      List.forall_mem_cons, List.forall_mem_cons, hnone]
    refine ⟨rfl, and_congr_left' ?_⟩
    show arguments' = .none ↔ arguments = .none
    cases arguments with
    | none =>
      rw [renamedArguments] at harguments
      rw [← Option.some.inj harguments]
    | angleBracketed args =>
      rw [renamedArguments, Option.bind_eq_bind, Option.bind_eq_some_iff] at harguments
      obtain ⟨_, _, heq⟩ := harguments
      rw [← Option.some.inj heq]
      exact ⟨fun h => (by cases h), fun h => (by cases h)⟩
    | parenthesized inputs output =>
      rw [renamedArguments, Option.bind_eq_bind, Option.bind_eq_some_iff] at harguments
      obtain ⟨_, _, harguments⟩ := harguments
      obtain ⟨_, _, heq⟩ := Option.bind_eq_some_iff.mp harguments
      rw [← Option.some.inj heq]
      exact ⟨fun h => (by cases h), fun h => (by cases h)⟩

theorem renamedSegments_of_none : ∀ {segments : List Segment},
    (∀ s ∈ segments, s.arguments = .none) → renamedSegments rw segments = some segments
  | [], _ => by rw [renamedSegments]
  | .mk ident arguments :: segments, h => by
    obtain ⟨hsegment, hrest⟩ := List.forall_mem_cons.mp h
    have harguments : arguments = .none := hsegment
    rw [renamedSegments, renamedSegment, harguments, renamedArguments,
      renamedSegments_of_none hrest]
    rfl

theorem zipWith_eq_bare : ∀ {idents : List Text} {arguments : List Arguments},
    arguments.length = idents.length →
      (idents.zipWith Segment.mk arguments = idents.map (fun s => .mk s .none) ↔
        ∀ a ∈ arguments, a = .none)
  | [], [], _ => by simp
  | s :: idents, a :: arguments, h => by
    have hrest := @zipWith_eq_bare idents arguments (Nat.succ.inj h)
    rw [List.zipWith_cons_cons, List.map_cons, List.forall_mem_cons, ← hrest, List.cons.injEq,
      Segment.mk.injEq]
    simp

/-- Names without arguments are what is left exactly where there were none. -/
theorem attach_eq_bare {idents : List Text} {arguments : List Arguments} :
    attach idents arguments = some (idents.map fun s => .mk s .none) ↔
      ∀ a ∈ arguments, a = .none := by
  have hlength : (List.replicate (idents.length - arguments.length) Arguments.none ++
      arguments.drop (arguments.length - idents.length)).length = idents.length := by
    rw [List.length_append, List.length_replicate, List.length_drop]
    omega
  have hkept := zipWith_eq_bare hlength
  have hsplit : (∀ a ∈ arguments, a = .none) ↔
      (∀ a ∈ arguments.take (arguments.length - idents.length), a = .none) ∧
      ∀ a ∈ arguments.drop (arguments.length - idents.length), a = .none := by
    rw [← List.forall_mem_append, List.take_append_drop]
  have hpadded : (∀ a ∈ List.replicate (idents.length - arguments.length) Arguments.none ++
      arguments.drop (arguments.length - idents.length), a = .none) ↔
        ∀ a ∈ arguments.drop (arguments.length - idents.length), a = .none := by
    rw [List.forall_mem_append]
    constructor
    · exact And.right
    · exact fun h => ⟨fun a ha => List.eq_of_mem_replicate ha, h⟩
  rw [attach, hsplit, ← hpadded, ← hkept]
  by_cases hdropped : (arguments.take (arguments.length - idents.length)).all Arguments.isNone
  · have hnone : ∀ a ∈ arguments.take (arguments.length - idents.length), a = .none :=
      fun a ha => isNone_iff.mp (List.all_eq_true.mp hdropped a ha)
    simp only [hdropped, if_true, Option.some.injEq]
    exact ⟨fun h => ⟨hnone, h⟩, And.right⟩
  · simp only [hdropped, Bool.false_eq_true, if_false, reduceCtorEq, false_iff]
    intro h
    apply hdropped
    rw [List.all_eq_true]
    exact fun a ha => isNone_iff.mpr (h.1 a ha)

/-- The segments of a path whose names stay. -/
theorem attach_same (segments : List Segment) :
    attach (segments.map Segment.ident) (segments.map Segment.arguments) = some segments := by
  have hzip : ∀ l : List Segment,
      (l.map Segment.ident).zipWith Segment.mk (l.map Segment.arguments) = l := by
    intro l
    induction l with
    | nil => rfl
    | cons s l ih =>
      obtain ⟨ident, arguments⟩ := s
      rw [List.map_cons, List.map_cons, List.zipWith_cons_cons, ih]
      rfl
  rw [attach, List.length_map, List.length_map, Nat.sub_self]
  exact congrArg some (hzip segments)

end Segments

/-! ### Arguments of a renamed path -/

section Visit

variable {isIdent : Text → Bool} {rw : PathRewriter}

mutual

theorem visitPath_iff : ∀ path : Path,
    Agree (visitPath isIdent rw path) (renamedPath rw path) ↔ ArgumentsKept isIdent rw path
  | .mk leadingColon segments => by
    have hsegments := visitSegments_iff segments
    rw [visitPath, renamedPath, ArgumentsKept]
    by_cases h : rw.rewriteSegments (segments.map Segment.ident) ≠ segments.map Segment.ident
    · rw [if_pos h]
      simp only [if_pos h]
      constructor
      · intro ⟨e, hvisited, hrenamed⟩
        obtain ⟨bare, hbare, heq⟩ := Option.bind_eq_some_iff.mp hvisited
        obtain ⟨segments', hsegments', hrenamed⟩ := Option.bind_eq_some_iff.mp hrenamed
        obtain ⟨renamed, hattach, heq'⟩ := Option.bind_eq_some_iff.mp hrenamed
        obtain ⟨hall, rfl⟩ := bareSegments_eq_some.mp hbare
        rw [← Option.some.inj heq] at heq'
        rw [(Path.mk.inj (Option.some.inj heq')).2] at hattach
        have hnone := attach_eq_bare.mp hattach
        refine ⟨hall, (renamedSegments_spec hsegments').2.mp ?_⟩
        exact fun s hs => hnone _ (List.mem_map_of_mem hs)
      · intro ⟨hall, hnone⟩
        have hattach := (@attach_eq_bare (rw.rewriteSegments (segments.map Segment.ident))
          (segments.map Segment.arguments)).mpr
            fun a ha => by
              obtain ⟨s, hs, rfl⟩ := List.mem_map.mp ha
              exact hnone s hs
        refine ⟨_, by rw [bareSegments_eq_some.mpr ⟨hall, rfl⟩]; rfl, ?_⟩
        rw [renamedSegments_of_none hnone, Option.bind_eq_bind, Option.bind_some, hattach]
        rfl
    · rw [if_neg h, ← hsegments]
      simp only [if_neg h]
      have hrenamed : ((renamedSegments rw segments).bind fun segments' =>
          (attach (rw.rewriteSegments (segments.map Segment.ident))
            (segments'.map Segment.arguments)).bind fun renamed =>
              some (Path.mk leadingColon renamed)) =
          (renamedSegments rw segments).bind fun segments' =>
            some (Path.mk leadingColon segments') := by
        cases hsegments' : renamedSegments rw segments with
        | none => rfl
        | some segments' =>
          rw [Option.bind_some, Option.bind_some, not_not.mp h,
            ← (renamedSegments_spec hsegments').1, attach_same, Option.bind_some]
      have hmap := @agree_map _ _ (Path.mk leadingColon) (fun _ _ heq => (Path.mk.inj heq).2)
        (visitSegments isIdent rw segments) (renamedSegments rw segments)
      rw [← hrenamed] at hmap
      exact hmap

theorem visitSegments_iff : ∀ segments : List Segment,
    Agree (visitSegments isIdent rw segments) (renamedSegments rw segments) ↔
      KeptSegments isIdent rw segments
  | [] => by
    rw [visitSegments, renamedSegments, KeptSegments]
    exact ⟨fun _ => trivial, fun _ => ⟨_, rfl, rfl⟩⟩
  | segment :: segments => by
    rw [visitSegments, renamedSegments, KeptSegments, ← visitSegment_iff segment,
      ← visitSegments_iff segments]
    exact agree_map₂ fun _ _ _ _ h => List.cons.inj h

theorem visitSegment_iff : ∀ segment : Segment,
    Agree (visitSegment isIdent rw segment) (renamedSegment rw segment) ↔
      KeptSegment isIdent rw segment
  | .mk ident arguments => by
    rw [visitSegment, renamedSegment, KeptSegment, ← visitArguments_iff arguments]
    exact agree_map fun _ _ h => (Segment.mk.inj h).2

theorem visitArguments_iff : ∀ arguments : Arguments,
    Agree (visitArguments isIdent rw arguments) (renamedArguments rw arguments) ↔
      KeptArguments isIdent rw arguments
  | .none => by
    rw [visitArguments, renamedArguments, KeptArguments]
    exact ⟨fun _ => trivial, fun _ => ⟨_, rfl, rfl⟩⟩
  | .angleBracketed args => by
    rw [visitArguments, renamedArguments, KeptArguments, ← visitAll_iff args]
    exact agree_map fun _ _ h => Arguments.angleBracketed.inj h
  | .parenthesized inputs output => by
    rw [visitArguments, renamedArguments, KeptArguments, ← visitAll_iff inputs,
      ← visitSyntax_iff output]
    exact agree_map₂ fun _ _ _ _ h => Arguments.parenthesized.inj h

theorem visitSyntax_iff : ∀ piece : Syntax,
    Agree (visitSyntax isIdent rw piece) (renamedSyntax rw piece) ↔ KeptSyntax isIdent rw piece
  | .token text => by
    rw [visitSyntax, renamedSyntax, KeptSyntax]
    exact ⟨fun _ => trivial, fun _ => ⟨_, rfl, rfl⟩⟩
  | .node children => by
    rw [visitSyntax, renamedSyntax, KeptSyntax, ← visitAll_iff children]
    exact agree_map fun _ _ h => Syntax.node.inj h
  | .path path => by
    rw [visitSyntax, renamedSyntax, KeptSyntax, ← visitPath_iff path]
    exact agree_map fun _ _ h => Syntax.path.inj h

theorem visitAll_iff : ∀ pieces : List Syntax,
    Agree (visitAll isIdent rw pieces) (renamedAll rw pieces) ↔ KeptChildren isIdent rw pieces
  | [] => by
    rw [visitAll, renamedAll, KeptChildren]
    exact ⟨fun _ => trivial, fun _ => ⟨_, rfl, rfl⟩⟩
  | piece :: pieces => by
    rw [visitAll, renamedAll, KeptChildren, ← visitSyntax_iff piece, ← visitAll_iff pieces]
    exact agree_map₂ fun _ _ _ _ h => List.cons.inj h

end

end Visit

/-- The visitor changes nothing but the names of leading segments exactly where no path that
    it rewrites, at any depth, has an argument list or a segment that is no identifier. -/
theorem arguments_kept_iff (isIdent : Text → Bool) (rw : PathRewriter) (path : Path) :
    (∃ path' changed, visitPath isIdent rw path = some (path', changed) ∧
      renamedPath rw path = some path') ↔ ArgumentsKept isIdent rw path := by
  rw [← visitPath_iff]
  constructor
  · intro ⟨path', changed, hvisited, hrenamed⟩
    exact ⟨(path', changed), hvisited, hrenamed⟩
  · intro ⟨e, hvisited, hrenamed⟩
    exact ⟨e.1, e.2, hvisited, hrenamed⟩

/-- `k::Old<T>` becomes `k::New`. -/
theorem rewritten_path_loses_arguments :
    let rw := PathRewriter.replaceFull ["k".toList, "Old".toList] ["k".toList, "New".toList]
    let path := Path.mk false [.mk "k".toList .none,
      .mk "Old".toList (.angleBracketed [.path (.mk false [.mk "T".toList .none])])]
    ¬ ∃ path' changed, visitPath asciiIdent rw path = some (path', changed) ∧
      renamedPath rw path = some path' := by
  intro rw path ⟨path', changed, hvisited, hrenamed⟩
  have hlost : visitPath asciiIdent rw path = some (.mk false
      [.mk "k".toList .none, .mk "New".toList .none], true) := by rfl
  rw [hlost] at hvisited
  obtain ⟨hpath, -⟩ := Prod.mk.inj (Option.some.inj hvisited)
  have hintended : renamedPath rw path = some (.mk false [.mk "k".toList .none,
      .mk "New".toList (.angleBracketed [.path (.mk false [.mk "T".toList .none])])]) := by rfl
  rw [hintended, ← hpath] at hrenamed
  cases hrenamed

end Canon.Editor
