import Canon.Lib.Text

/-! # Rewriting use trees

    `PathRewriter` of the editor's `rewrite.rs` on `syn::UseTree`.  A use that names one
    item is flattened, rewritten and built again; for the items of a group the prefix is
    put in front, and the prefix of the first item that changes becomes that of the group.
    Where nothing changes the visitor goes on into the subtrees and takes each of them for
    a whole path.
-/

namespace Canon.Editor

/-! ### Segments -/

structure PathRewriter where
  oldFull : Option (List Text)
  newFull : Option (List Text)
  oldPrefix : Option (List Text)
  newPrefix : Option (List Text)

namespace PathRewriter

def replaceFull (old new : List Text) : PathRewriter := ⟨some old, some new, none, none⟩

def replacePrefix (old new : List Text) : PathRewriter := ⟨none, none, some old, some new⟩

/-- The segments with `new` for a leading `old`. -/
def replaceLeading (old new segments : List Text) : List Text :=
  if old.isPrefixOf segments then new ++ segments.drop old.length else segments

def rewriteFull (rw : PathRewriter) (segments : List Text) : List Text :=
  match rw.oldFull, rw.newFull with
  | some old, some new => if segments = old then new else replaceLeading old new segments
  | _, _ => segments

def rewriteLeading (rw : PathRewriter) (segments : List Text) : List Text :=
  match rw.oldPrefix, rw.newPrefix with
  | some old, some new => replaceLeading old new segments
  | _, _ => segments

/-- What becomes of the segments; the code also returns whether they change. -/
def rewriteSegments (rw : PathRewriter) (segments : List Text) : List Text :=
  rw.rewriteLeading (rw.rewriteFull segments)

end PathRewriter

/-! ### Trees -/

inductive UseTree where
  | path (ident : Text) (tree : UseTree)
  | name (ident : Text)
  | rename (ident rename : Text)
  | glob
  | group (items : List UseTree)

inductive UseTail where
  | name
  | rename (ident : Text)
deriving DecidableEq

def flattenUseTree : UseTree → Option (List Text × UseTail)
  | .path ident tree => (flattenUseTree tree).map fun e => (ident :: e.1, e.2)
  | .name ident => some ([ident], .name)
  | .rename ident rename => some ([ident], .rename rename)
  | .glob => none
  | .group _ => none

def useTreeGroupPrefix : UseTree → Option (List Text × List UseTree)
  | .path ident tree => (useTreeGroupPrefix tree).map fun e => (ident :: e.1, e.2)
  | .group items => some ([], items)
  | .name _ => none
  | .rename _ _ => none
  | .glob => none

/-- The tree with other items in its group, where it has one. -/
def setGroupItems (items : List UseTree) : UseTree → UseTree
  | .path ident tree => .path ident (setGroupItems items tree)
  | .group _ => .group items
  | .name ident => .name ident
  | .rename ident rename => .rename ident rename
  | .glob => .glob

section Visitor

variable (isIdent : Text → Bool) (rw : PathRewriter)

/-- `Ident::new`, which panics at a text that is no identifier. -/
def identNew (s : Text) : Option Text := if isIdent s then some s else none

def buildUseTree (tail : UseTail) : List Text → Option UseTree
  | [] => some .glob
  | [s] => do
    let ident ← identNew isIdent s
    match tail with
    | .name => some (.name ident)
    | .rename rename => some (.rename ident rename)
  | s :: t :: rest => do
    let ident ← identNew isIdent s
    let tree ← buildUseTree tail (t :: rest)
    some (.path ident tree)

def buildUseGroupTree (items : List UseTree) : List Text → Option UseTree
  | [] => some (.group items)
  | s :: rest => do
    let ident ← identNew isIdent s
    let tree ← buildUseGroupTree items rest
    some (.path ident tree)

/-- The loop over the items of a group: those that are done, the prefix of the first one
    that changes it, and whether any changes. -/
structure GroupLoop where
  items : List UseTree
  updatedPrefix : Option (List Text)
  changed : Bool

/-- One round; nothing is a panic. -/
def visitItem (pre : List Text) (s : GroupLoop) (item : UseTree) : Option GroupLoop :=
  match flattenUseTree item with
  | none => some { s with items := s.items ++ [item] }
  | some (segments, tail) =>
    let rewritten := rw.rewriteSegments (pre ++ segments)
    if rewritten = pre ++ segments then some { s with items := s.items ++ [item] }
    else if rewritten.length < pre.length then none
    else do
      let newPrefix := rewritten.take pre.length
      let built ← buildUseTree isIdent tail (rewritten.drop pre.length)
      let items := s.items ++ [built]
      if newPrefix = pre then some ⟨items, s.updatedPrefix, true⟩
      else
        match s.updatedPrefix with
        | some existing =>
          if existing ≠ newPrefix then some ⟨items, some existing, s.changed⟩
          else some ⟨items, some existing, true⟩
        | none => some ⟨items, some newPrefix, true⟩

/-- What happens at a node before its subtrees are visited: a panic, another tree, or
    nothing. -/
def visitHere (tree : UseTree) : Option (Option UseTree) :=
  match flattenUseTree tree with
  | some (segments, tail) =>
    let newSegments := rw.rewriteSegments segments
    if newSegments ≠ segments then (buildUseTree isIdent tail newSegments).map some
    else some none
  | none =>
    match useTreeGroupPrefix tree with
    | none => some none
    | some (pre, items) => do
      let s ← items.foldlM (visitItem isIdent rw pre) ⟨[], none, false⟩
      if s.changed then
        match s.updatedPrefix with
        | some newPrefix => (buildUseGroupTree isIdent s.items newPrefix).map some
        | none => some (some (setGroupItems s.items tree))
      else some none

mutual

/-- The tree and the `changed` flag. -/
def visitUseTree : UseTree → Option (UseTree × Bool)
  | .path ident tree => do
    match ← visitHere isIdent rw (.path ident tree) with
    | some tree' => some (tree', true)
    | none =>
      let e ← visitUseTree tree
      some (.path ident e.1, e.2)
  | .name ident => do
    match ← visitHere isIdent rw (.name ident) with
    | some tree' => some (tree', true)
    | none => some (.name ident, false)
  | .rename ident rename => do
    match ← visitHere isIdent rw (.rename ident rename) with
    | some tree' => some (tree', true)
    | none => some (.rename ident rename, false)
  | .glob => some (.glob, false)
  | .group items => do
    match ← visitHere isIdent rw (.group items) with
    | some tree' => some (tree', true)
    | none =>
      let e ← visitUseTrees items
      some (.group e.1, e.2)

def visitUseTrees : List UseTree → Option (List UseTree × Bool)
  | [] => some ([], false)
  | item :: items => do
    let e ← visitUseTree item
    let es ← visitUseTrees items
    some (e.1 :: es.1, e.2 || es.2)

end

end Visitor

/-! ### What a tree imports -/

/-- The name an import gets, or everything below the path. -/
inductive Alias where
  | own
  | renamed (ident : Text)
  | everything
deriving DecidableEq

def UseTail.toAlias : UseTail → Alias
  | .name => .own
  | .rename ident => .renamed ident

mutual

def imports : UseTree → List (List Text × Alias)
  | .path ident tree => (imports tree).map fun e => (ident :: e.1, e.2)
  | .name ident => [([ident], .own)]
  | .rename ident rename => [([ident], .renamed rename)]
  | .glob => [([], .everything)]
  | .group items => importsAll items

def importsAll : List UseTree → List (List Text × Alias)
  | [] => []
  | item :: items => imports item ++ importsAll items

end

theorem importsAll_eq (items : List UseTree) : importsAll items = items.flatMap imports := by
  induction items with
  | nil => rfl
  | cons item items ih => rw [importsAll, ih, List.flatMap_cons]

/-- An import below a path. -/
def below (pre : List Text) (e : List Text × Alias) : List Text × Alias := (pre ++ e.1, e.2)

/-- What should become of an import below a path. -/
def PathRewriter.image (rw : PathRewriter) (outer : List Text) (e : List Text × Alias) :
    List Text × Alias := (rw.rewriteSegments (outer ++ e.1), e.2)

@[simp] theorem below_nil (e : List Text × Alias) : below [] e = e := rfl

theorem below_below (a b : List Text) (e : List Text × Alias) :
    below a (below b e) = below (a ++ b) e := by
  simp [below]

theorem image_below (rw : PathRewriter) (a b : List Text) (e : List Text × Alias) :
    rw.image a (below b e) = rw.image (a ++ b) e := by
  simp [below, PathRewriter.image]

theorem imports_of_flatten : ∀ {tree : UseTree} {segments : List Text} {tail : UseTail},
    flattenUseTree tree = some (segments, tail) → imports tree = [(segments, tail.toAlias)]
  | .path ident tree, segments, tail, h => by
    rw [flattenUseTree, Option.map_eq_some_iff] at h
    obtain ⟨⟨segs, tail'⟩, hflat, heq⟩ := h
    obtain ⟨rfl, rfl⟩ := Prod.mk.inj heq
    rw [imports, imports_of_flatten hflat]
    rfl
  | .name ident, segments, tail, h => by
    obtain ⟨rfl, rfl⟩ := Prod.mk.inj (Option.some.inj h)
    rfl
  | .rename ident rename, segments, tail, h => by
    obtain ⟨rfl, rfl⟩ := Prod.mk.inj (Option.some.inj h)
    rfl

theorem imports_of_groupPrefix : ∀ {tree : UseTree} {pre : List Text} {items : List UseTree},
    useTreeGroupPrefix tree = some (pre, items) →
      (∀ items', imports (setGroupItems items' tree) = (importsAll items').map (below pre)) ∧
      imports tree = (importsAll items).map (below pre)
  | .path ident tree, pre, items, h => by
    rw [useTreeGroupPrefix, Option.map_eq_some_iff] at h
    obtain ⟨⟨pre', items'⟩, hgroup, heq⟩ := h
    obtain ⟨rfl, rfl⟩ := Prod.mk.inj heq
    obtain ⟨hset, himports⟩ := imports_of_groupPrefix hgroup
    constructor
    · intro items
      rw [setGroupItems, imports, hset, List.map_map]
      rfl
    · rw [imports, himports, List.map_map]
      rfl
  | .group its, pre, items, h => by
    obtain ⟨rfl, rfl⟩ := Prod.mk.inj (Option.some.inj h)
    have hid : below [] = id := funext below_nil
    constructor
    · intro items
      rw [setGroupItems, imports, hid, List.map_id]
    · rw [imports, hid, List.map_id]

/-! ### Building -/

section Build

variable {isIdent : Text → Bool}

/-- All segments are identifiers. -/
def AllIdents (isIdent : Text → Bool) (segments : List Text) : Prop :=
  ∀ s ∈ segments, isIdent s = true

theorem identNew_eq_some {s ident : Text} :
    identNew isIdent s = some ident ↔ isIdent s = true ∧ ident = s := by
  rw [identNew]
  by_cases h : isIdent s
  · simp [h, eq_comm]
  · simp [h]

theorem allIdents_cons {s : Text} {rest : List Text} :
    AllIdents isIdent (s :: rest) ↔ isIdent s = true ∧ AllIdents isIdent rest :=
  List.forall_mem_cons

/-- What a built tree imports; from no segments it is a glob. -/
def builtImport (tail : UseTail) (segments : List Text) : List Text × Alias :=
  if segments = [] then ([], .everything) else (segments, tail.toAlias)

theorem buildUseTree_eq_some {tail : UseTail} : ∀ {segments : List Text} {tree : UseTree},
    buildUseTree isIdent tail segments = some tree →
      AllIdents isIdent segments ∧ imports tree = [builtImport tail segments]
  | [], tree, h => by
    rw [← Option.some.inj h]
    exact ⟨fun _ hs => absurd hs List.not_mem_nil, rfl⟩
  | [s], tree, h => by
    rw [buildUseTree, Option.bind_eq_bind, Option.bind_eq_some_iff] at h
    obtain ⟨ident, hident, h⟩ := h
    obtain ⟨hs, rfl⟩ := identNew_eq_some.mp hident
    refine ⟨allIdents_cons.mpr ⟨hs, fun _ hs => absurd hs List.not_mem_nil⟩, ?_⟩
    cases tail with
    | name =>
      rw [← Option.some.inj h]
      rfl
    | rename r =>
      rw [← Option.some.inj h]
      rfl
  | s :: t :: rest, tree, h => by
    rw [buildUseTree, Option.bind_eq_bind, Option.bind_eq_some_iff] at h
    obtain ⟨ident, hident, h⟩ := h
    rw [Option.bind_eq_bind, Option.bind_eq_some_iff] at h
    obtain ⟨tree', htree, h⟩ := h
    obtain ⟨hs, rfl⟩ := identNew_eq_some.mp hident
    obtain ⟨hrest, himports⟩ := buildUseTree_eq_some htree
    refine ⟨allIdents_cons.mpr ⟨hs, hrest⟩, ?_⟩
    rw [← Option.some.inj h, imports, himports]
    rfl

theorem buildUseTree_of_allIdents (tail : UseTail) : ∀ {segments : List Text},
    AllIdents isIdent segments → ∃ tree, buildUseTree isIdent tail segments = some tree
  | [], _ => ⟨.glob, rfl⟩
  | [s], h => by
    have hident := identNew_eq_some.mpr ⟨(allIdents_cons.mp h).1, rfl⟩
    rw [buildUseTree, hident]
    cases tail with
    | name => exact ⟨_, rfl⟩
    | rename r => exact ⟨_, rfl⟩
  | s :: t :: rest, h => by
    obtain ⟨hs, hrest⟩ := allIdents_cons.mp h
    obtain ⟨tree, htree⟩ := buildUseTree_of_allIdents tail hrest
    rw [buildUseTree, identNew_eq_some.mpr ⟨hs, rfl⟩, htree]
    exact ⟨_, rfl⟩

theorem buildUseGroupTree_eq_some {items : List UseTree} : ∀ {pre : List Text} {tree : UseTree},
    buildUseGroupTree isIdent items pre = some tree →
      AllIdents isIdent pre ∧ imports tree = (importsAll items).map (below pre)
  | [], tree, h => by
    rw [← Option.some.inj h]
    refine ⟨fun _ hs => absurd hs List.not_mem_nil, ?_⟩
    rw [imports, show below [] = id from funext below_nil, List.map_id]
  | s :: rest, tree, h => by
    rw [buildUseGroupTree, Option.bind_eq_bind, Option.bind_eq_some_iff] at h
    obtain ⟨ident, hident, h⟩ := h
    rw [Option.bind_eq_bind, Option.bind_eq_some_iff] at h
    obtain ⟨tree', htree, h⟩ := h
    obtain ⟨hs, rfl⟩ := identNew_eq_some.mp hident
    obtain ⟨hrest, himports⟩ := buildUseGroupTree_eq_some htree
    refine ⟨allIdents_cons.mpr ⟨hs, hrest⟩, ?_⟩
    rw [← Option.some.inj h, imports, himports, List.map_map]
    rfl

theorem buildUseGroupTree_of_allIdents (items : List UseTree) : ∀ {pre : List Text},
    AllIdents isIdent pre → ∃ tree, buildUseGroupTree isIdent items pre = some tree
  | [], _ => ⟨_, rfl⟩
  | s :: rest, h => by
    obtain ⟨hs, hrest⟩ := allIdents_cons.mp h
    obtain ⟨tree, htree⟩ := buildUseGroupTree_of_allIdents items hrest
    rw [buildUseGroupTree, identNew_eq_some.mpr ⟨hs, rfl⟩, htree]
    exact ⟨_, rfl⟩

end Build

/-! ### The loop over a group -/

section Group

variable {isIdent : Text → Bool} {rw : PathRewriter} {pre : List Text} {item : UseTree}
  {items : List UseTree}

/-- The whole path of an item that the loop changes, after the rewriting. -/
def rewrittenItem (rw : PathRewriter) (pre : List Text) (item : UseTree) :
    Option (List Text × UseTail) :=
  match flattenUseTree item with
  | none => none
  | some (segments, tail) =>
    if rw.rewriteSegments (pre ++ segments) = pre ++ segments then none
    else some (rw.rewriteSegments (pre ++ segments), tail)

/-- The prefix of the first changed item that has another one. -/
def firstPrefix (rw : PathRewriter) (pre : List Text) : List UseTree → Option (List Text)
  | [] => none
  | item :: items =>
    match rewrittenItem rw pre item with
    | none => firstPrefix rw pre items
    | some e => if e.1.take pre.length = pre then firstPrefix rw pre items
      else some (e.1.take pre.length)

/-- The prefix all items have in the end. -/
def finalPrefix (rw : PathRewriter) (pre : List Text) (items : List UseTree) : List Text :=
  (firstPrefix rw pre items).getD pre

/-- The item can be built again: its path is no shorter than the prefix, and what is behind
    the prefix are identifiers. -/
def Builds (isIdent : Text → Bool) (rw : PathRewriter) (pre : List Text) (item : UseTree) :
    Prop :=
  ∀ e, rewrittenItem rw pre item = some e →
    pre.length ≤ e.1.length ∧ AllIdents isIdent (e.1.drop pre.length)

/-- What an item imports below the final prefix. -/
def itemImports (rw : PathRewriter) (pre : List Text) (item : UseTree) :
    List (List Text × Alias) :=
  match rewrittenItem rw pre item with
  | none => imports item
  | some e => [builtImport e.2 (e.1.drop pre.length)]

theorem visitItem_of_none (s : GroupLoop) (h : rewrittenItem rw pre item = none) :
    visitItem isIdent rw pre s item = some { s with items := s.items ++ [item] } := by
  rw [rewrittenItem] at h
  rw [visitItem]
  match hflat : flattenUseTree item with
  | none => rfl
  | some (segments, tail) =>
    simp only [hflat] at h
    by_cases hsame : rw.rewriteSegments (pre ++ segments) = pre ++ segments
    · exact if_pos hsame
    · rw [if_neg hsame] at h
      cases h

theorem rewrittenItem_eq_some {e : List Text × UseTail} (h : rewrittenItem rw pre item = some e) :
    ∃ segments tail, flattenUseTree item = some (segments, tail) ∧
      rw.rewriteSegments (pre ++ segments) ≠ pre ++ segments ∧
      e = (rw.rewriteSegments (pre ++ segments), tail) := by
  rw [rewrittenItem] at h
  cases hflat : flattenUseTree item with
  | none =>
    simp only [hflat] at h
    cases h
  | some found =>
    obtain ⟨segments, tail⟩ := found
    simp only [hflat] at h
    by_cases hsame : rw.rewriteSegments (pre ++ segments) = pre ++ segments
    · rw [if_pos hsame] at h
      cases h
    · rw [if_neg hsame] at h
      exact ⟨segments, tail, rfl, hsame, (Option.some.inj h).symm⟩

/-- An item that changes is built again, or the loop panics. -/
theorem visitItem_of_some (s : GroupLoop) {e : List Text × UseTail}
    (h : rewrittenItem rw pre item = some e) (hs : s.updatedPrefix ≠ none → s.changed = true) :
    visitItem isIdent rw pre s item =
      if e.1.length < pre.length then none
      else (buildUseTree isIdent e.2 (e.1.drop pre.length)).map fun built =>
        ⟨s.items ++ [built],
          s.updatedPrefix.or (if e.1.take pre.length = pre then none
            else some (e.1.take pre.length)), true⟩ := by
  obtain ⟨segments, tail, hflat, hsame, rfl⟩ := rewrittenItem_eq_some h
  rw [visitItem]
  simp only [hflat]
  apply (if_neg hsame).trans
  by_cases hshort : (rw.rewriteSegments (pre ++ segments)).length < pre.length
  · rw [if_pos hshort, if_pos hshort]
  · rw [if_neg hshort, if_neg hshort]
    cases hbuilt : buildUseTree isIdent tail
        ((rw.rewriteSegments (pre ++ segments)).drop pre.length) with
    | none => rfl
    | some built =>
      simp only [Option.bind_eq_bind, Option.bind_some, Option.map_some]
      by_cases hpre : (rw.rewriteSegments (pre ++ segments)).take pre.length = pre
      · rw [if_pos hpre, if_pos hpre, Option.or_none]
      · rw [if_neg hpre, if_neg hpre]
        cases hupd : s.updatedPrefix with
        | none => rfl
        | some existing =>
          have hchanged : s.changed = true := hs (by rw [hupd]; exact Option.some_ne_none _)
          rw [hchanged]
          simp

theorem visitItem_builds {s s' : GroupLoop} (hs : s.updatedPrefix ≠ none → s.changed = true)
    (h : visitItem isIdent rw pre s item = some s') :
    Builds isIdent rw pre item ∧ (s'.updatedPrefix ≠ none → s'.changed = true) := by
  cases hitem : rewrittenItem rw pre item with
  | none =>
    rw [visitItem_of_none s hitem] at h
    rw [← Option.some.inj h]
    refine ⟨?_, hs⟩
    intro e he
    rw [hitem] at he
    cases he
  | some e =>
    rw [visitItem_of_some s hitem hs] at h
    by_cases hshort : e.1.length < pre.length
    · rw [if_pos hshort] at h
      cases h
    · rw [if_neg hshort, Option.map_eq_some_iff] at h
      obtain ⟨built, hbuilt, rfl⟩ := h
      refine ⟨?_, fun _ => rfl⟩
      intro e' he'
      rw [hitem] at he'
      rw [← Option.some.inj he']
      exact ⟨Nat.not_lt.mp hshort, (buildUseTree_eq_some hbuilt).1⟩

/-- The whole loop, where all changed items can be built again. -/
theorem foldlM_visitItem (s : GroupLoop) (hs : s.updatedPrefix ≠ none → s.changed = true)
    (hbuilds : ∀ item ∈ items, Builds isIdent rw pre item) :
    ∃ items', items.foldlM (visitItem isIdent rw pre) s = some ⟨s.items ++ items',
        s.updatedPrefix.or (firstPrefix rw pre items),
        s.changed || items.any fun item => (rewrittenItem rw pre item).isSome⟩ ∧
      importsAll items' = items.flatMap (itemImports rw pre) := by
  induction items generalizing s with
  | nil =>
    refine ⟨[], ?_, rfl⟩
    simp [firstPrefix]
  | cons item items ih =>
    have hrest : ∀ item ∈ items, Builds isIdent rw pre item :=
      fun i hi => hbuilds i (List.mem_cons_of_mem item hi)
    rw [List.foldlM_cons]
    cases hitem : rewrittenItem rw pre item with
    | none =>
      obtain ⟨items', hloop, himports⟩ := ih { s with items := s.items ++ [item] } hs hrest
      refine ⟨item :: items', ?_, ?_⟩
      · rw [visitItem_of_none s hitem, Option.bind_eq_bind, Option.bind_some, hloop]
        simp [firstPrefix, hitem]
      · rw [importsAll, himports, List.flatMap_cons, itemImports, hitem]
    | some e =>
      obtain ⟨hlong, hidents⟩ := hbuilds item List.mem_cons_self e hitem
      obtain ⟨built, hbuilt⟩ := buildUseTree_of_allIdents e.2 hidents
      obtain ⟨items', hloop, himports⟩ := ih ⟨s.items ++ [built],
        s.updatedPrefix.or (if e.1.take pre.length = pre then none
          else some (e.1.take pre.length)), true⟩ (fun _ => rfl) hrest
      refine ⟨built :: items', ?_, ?_⟩
      · rw [visitItem_of_some s hitem hs, if_neg (by omega), hbuilt, Option.map_some,
          Option.bind_eq_bind, Option.bind_some, hloop]
        by_cases hpre : e.1.take pre.length = pre
        · simp [firstPrefix, hitem, hpre]
        · simp [firstPrefix, hitem, hpre]
      · rw [importsAll, himports, List.flatMap_cons, itemImports, hitem]
        simp only [(buildUseTree_eq_some hbuilt).2]

theorem builds_of_foldlM {s s' : GroupLoop} (hs : s.updatedPrefix ≠ none → s.changed = true)
    (h : items.foldlM (visitItem isIdent rw pre) s = some s') :
    ∀ item ∈ items, Builds isIdent rw pre item := by
  induction items generalizing s with
  | nil => exact fun _ hi => absurd hi List.not_mem_nil
  | cons item items ih =>
    rw [List.foldlM_cons, Option.bind_eq_bind, Option.bind_eq_some_iff] at h
    obtain ⟨s₁, hstep, hloop⟩ := h
    obtain ⟨hitem, hs₁⟩ := visitItem_builds hs hstep
    exact List.forall_mem_cons.mpr ⟨hitem, ih hs₁ hloop⟩

end Group

/-! ### When the imports are kept -/

section Kept

variable (isIdent : Text → Bool) (rw : PathRewriter)

/-- The visitor puts another tree in the place of this one. -/
def touched (tree : UseTree) : Bool :=
  match flattenUseTree tree with
  | some (segments, _) => rw.rewriteSegments segments ≠ segments
  | none =>
    match useTreeGroupPrefix tree with
    | some (pre, items) => items.any fun item => (rewrittenItem rw pre item).isSome
    | none => false

/-- An item of a group that changes: a changed one is more than the prefix and becomes
    what its whole path should, and any other one goes with the prefix of the group. -/
def KeptItem (outer pre : List Text) (final : List Text) (item : UseTree) : Prop :=
  match rewrittenItem rw pre item with
  | some e => pre.length < e.1.length ∧ AllIdents isIdent (e.1.drop pre.length) ∧
      ∀ x ∈ imports item, rw.rewriteSegments (outer ++ pre ++ x.1) =
        outer ++ final ++ e.1.drop pre.length
  | none => ∀ x ∈ imports item,
      rw.rewriteSegments (outer ++ pre ++ x.1) = outer ++ final ++ x.1

/-- The condition at a tree that is replaced, below the segments `outer`. -/
def KeptHere (outer : List Text) (tree : UseTree) : Prop :=
  match flattenUseTree tree with
  | some (segments, _) => rw.rewriteSegments segments ≠ [] ∧
      AllIdents isIdent (rw.rewriteSegments segments) ∧
      rw.rewriteSegments (outer ++ segments) = outer ++ rw.rewriteSegments segments
  | none =>
    match useTreeGroupPrefix tree with
    | some (pre, items) =>
      (firstPrefix rw pre items ≠ none → AllIdents isIdent (finalPrefix rw pre items)) ∧
        ∀ item ∈ items, KeptItem isIdent rw outer pre (finalPrefix rw pre items) item
    | none => True

mutual

/-- The condition at the first trees that are replaced, and below `outer` nothing else is
    to be rewritten. -/
def Kept (outer : List Text) : UseTree → Prop
  | .path ident tree =>
    if touched rw (.path ident tree) then KeptHere isIdent rw outer (.path ident tree)
    else Kept (outer ++ [ident]) tree
  | .name ident =>
    if touched rw (.name ident) then KeptHere isIdent rw outer (.name ident)
    else rw.rewriteSegments (outer ++ [ident]) = outer ++ [ident]
  | .rename ident rename =>
    if touched rw (.rename ident rename) then KeptHere isIdent rw outer (.rename ident rename)
    else rw.rewriteSegments (outer ++ [ident]) = outer ++ [ident]
  | .glob => rw.rewriteSegments outer = outer
  | .group items =>
    if touched rw (.group items) then KeptHere isIdent rw outer (.group items)
    else KeptAll outer items

def KeptAll (outer : List Text) : List UseTree → Prop
  | [] => True
  | item :: items => Kept outer item ∧ KeptAll outer items

end

end Kept

section Visit

variable {isIdent : Text → Bool} {rw : PathRewriter} {tree : UseTree}

theorem visitHere_of_untouched (h : touched rw tree = false) :
    visitHere isIdent rw tree = some none := by
  rw [touched] at h
  rw [visitHere]
  match hflat : flattenUseTree tree with
  | some (segments, tail) =>
    simp only [hflat, decide_eq_false_iff_not, not_not] at h
    exact if_neg (not_not.mpr h)
  | none =>
    simp only [hflat] at h
    match hgroup : useTreeGroupPrefix tree with
    | none => rfl
    | some (pre, items) =>
      simp only [hgroup] at h
      have hnone : ∀ item ∈ items, rewrittenItem rw pre item = none := by
        intro item hitem
        have := List.any_eq_false.mp h item hitem
        simpa using this
      have hbuilds : ∀ item ∈ items, Builds isIdent rw pre item := by
        intro item hitem e he
        rw [hnone item hitem] at he
        cases he
      obtain ⟨items', hloop, -⟩ := @foldlM_visitItem isIdent rw pre items ⟨[], none, false⟩
        (fun hne => absurd rfl hne) hbuilds
      simp only [hloop, h]
      rfl

/-- A changed item is a flat one. -/
theorem imports_of_rewrittenItem {pre : List Text} {item : UseTree} {e : List Text × UseTail}
    (h : rewrittenItem rw pre item = some e) :
    ∃ segments, imports item = [(segments, e.2.toAlias)] := by
  obtain ⟨segments, tail, hflat, -, rfl⟩ := rewrittenItem_eq_some h
  exact ⟨segments, imports_of_flatten hflat⟩

theorem length_itemImports (rw : PathRewriter) (pre : List Text) (item : UseTree) :
    (itemImports rw pre item).length = (imports item).length := by
  rw [itemImports]
  cases h : rewrittenItem rw pre item with
  | none => rfl
  | some e =>
    obtain ⟨segments, himports⟩ := imports_of_rewrittenItem h
    rw [himports]
    rfl

/-- A changed item has one import before and after, and any other item the same ones. -/
theorem itemImports_eq_iff {outer pre final : List Text} {item : UseTree}
    (hbuilds : Builds isIdent rw pre item) :
    ((itemImports rw pre item).map fun x => below outer (below final x)) =
        (imports item).map (fun x => rw.image outer (below pre x)) ↔
      KeptItem isIdent rw outer pre final item := by
  rw [itemImports, KeptItem]
  cases h : rewrittenItem rw pre item with
  | none =>
    simp only [List.map_inj_left, below_below, image_below]
    apply forall_congr'
    intro x
    apply imp_congr_right
    intro _
    rw [below, PathRewriter.image, Prod.mk.injEq]
    constructor
    · exact fun heq => heq.1.symm
    · exact fun heq => ⟨heq.symm, rfl⟩
  | some e =>
    obtain ⟨segments, himports⟩ := imports_of_rewrittenItem h
    obtain ⟨hlong, hidents⟩ := hbuilds e h
    simp only [himports, List.map_cons, List.map_nil, below_below, image_below,
      List.forall_mem_singleton, List.cons.injEq, and_true]
    rw [builtImport]
    by_cases hnil : e.1.drop pre.length = []
    -- A glob is no item.
    · rw [if_pos hnil]
      have hlength := List.drop_eq_nil_iff.mp hnil
      constructor
      · intro heq
        have halias := congrArg Prod.snd heq
        cases htail : e.2 with
        | name =>
          rw [htail] at halias
          cases halias
        | rename r =>
          rw [htail] at halias
          cases halias
      · intro ⟨hlt, _⟩
        omega
    · rw [if_neg hnil]
      have hlt : pre.length < e.1.length := by
        by_contra hge
        exact hnil (List.drop_eq_nil_of_le (Nat.not_lt.mp hge))
      rw [below, PathRewriter.image, Prod.mk.injEq]
      constructor
      · exact fun heq => ⟨hlt, hidents, heq.1.symm⟩
      · exact fun heq => ⟨heq.2.2.symm, rfl⟩

/-- Parts of equal lengths are equal one by one. -/
theorem flatMap_eq_iff {α β : Type} {f g : α → List β} {l : List α}
    (hlength : ∀ a ∈ l, (f a).length = (g a).length) :
    l.flatMap f = l.flatMap g ↔ ∀ a ∈ l, f a = g a := by
  constructor
  · intro h
    induction l with
    | nil => exact fun _ ha => absurd ha List.not_mem_nil
    | cons a l ih =>
      rw [List.flatMap_cons, List.flatMap_cons] at h
      obtain ⟨hhead, htail⟩ := List.append_inj h (hlength a List.mem_cons_self)
      exact List.forall_mem_cons.mpr
        ⟨hhead, ih (fun b hb => hlength b (List.mem_cons_of_mem a hb)) htail⟩
  · exact List.flatMap_congr

theorem touched_chain {segments : List Text} {tail : UseTail}
    (hflat : flattenUseTree tree = some (segments, tail)) (h : touched rw tree = true) :
    visitHere isIdent rw tree =
      (buildUseTree isIdent tail (rw.rewriteSegments segments)).map some := by
  rw [touched, hflat] at h
  rw [visitHere, hflat]
  exact if_pos (of_decide_eq_true h)

/-- A group that changes. -/
theorem touched_group (hflat : flattenUseTree tree = none) (h : touched rw tree = true) :
    ∃ pre items, useTreeGroupPrefix tree = some (pre, items) ∧
      (∀ tree', visitHere isIdent rw tree = some (some tree') →
        (∀ item ∈ items, Builds isIdent rw pre item) ∧
        (firstPrefix rw pre items ≠ none → AllIdents isIdent (finalPrefix rw pre items)) ∧
        imports tree' = (items.flatMap (itemImports rw pre)).map
          (below (finalPrefix rw pre items))) ∧
      ((∀ item ∈ items, Builds isIdent rw pre item) →
        (firstPrefix rw pre items ≠ none → AllIdents isIdent (finalPrefix rw pre items)) →
        ∃ tree', visitHere isIdent rw tree = some (some tree')) ∧
      visitHere isIdent rw tree ≠ some none := by
  rw [touched, hflat] at h
  match hgroup : useTreeGroupPrefix tree with
  | none =>
    simp only [hgroup] at h
    cases h
  | some (pre, items) =>
    simp only [hgroup] at h
    have hstart : (⟨[], none, false⟩ : GroupLoop).updatedPrefix ≠ none →
        (⟨[], none, false⟩ : GroupLoop).changed = true := fun hne => absurd rfl hne
    have hvisit : visitHere isIdent rw tree =
        (items.foldlM (visitItem isIdent rw pre) ⟨[], none, false⟩).bind fun s =>
          if s.changed then
            match s.updatedPrefix with
            | some newPrefix => (buildUseGroupTree isIdent s.items newPrefix).map some
            | none => some (some (setGroupItems s.items tree))
          else some none := by
      rw [visitHere, hflat]
      simp only [hgroup]
      rfl
    refine ⟨pre, items, rfl, ?_⟩
    by_cases hbuilds : ∀ item ∈ items, Builds isIdent rw pre item
    · obtain ⟨items', hloop, himports⟩ := foldlM_visitItem _ hstart hbuilds
      rw [hvisit, hloop, Option.bind_some]
      simp only [h, Bool.or_true, if_true, List.nil_append, Option.none_or, finalPrefix]
      cases hfirst : firstPrefix rw pre items with
      | none =>
        simp only [Option.some.injEq, Option.getD_none]
        refine ⟨?_, fun _ _ => ⟨_, rfl⟩, fun heq => by cases heq⟩
        intro tree' htree'
        refine ⟨hbuilds, fun hne => absurd rfl hne, ?_⟩
        rw [← htree', (imports_of_groupPrefix hgroup).1, himports]
      | some final =>
        simp only [Option.getD_some]
        refine ⟨?_, ?_, ?_⟩
        · intro tree' htree'
          obtain ⟨built, hbuilt, heq⟩ := Option.map_eq_some_iff.mp htree'
          obtain ⟨hidents, hbuiltImports⟩ := buildUseGroupTree_eq_some hbuilt
          refine ⟨hbuilds, fun _ => hidents, ?_⟩
          rw [← Option.some.inj heq, hbuiltImports, himports]
        · intro _ hidents
          obtain ⟨built, hbuilt⟩ :=
            buildUseGroupTree_of_allIdents items' (hidents (Option.some_ne_none final))
          exact ⟨built, by rw [hbuilt]; rfl⟩
        · intro hnone
          obtain ⟨_, _, heq⟩ := Option.map_eq_some_iff.mp hnone
          cases heq
    · have hloop : items.foldlM (visitItem isIdent rw pre) ⟨[], none, false⟩ = none := by
        by_contra hne
        obtain ⟨s, hs⟩ := Option.ne_none_iff_exists'.mp hne
        exact hbuilds (builds_of_foldlM hstart hs)
      rw [hvisit, hloop]
      refine ⟨?_, fun hall => absurd hall hbuilds, ?_⟩
      · intro tree' htree'
        cases htree'
      · intro hnone
        cases hnone

/-- A tree that is replaced imports what it should exactly under its condition. -/
theorem visitHere_iff (outer : List Text) (h : touched rw tree = true) :
    (∃ tree', visitHere isIdent rw tree = some (some tree') ∧
      (imports tree').map (below outer) = (imports tree).map (rw.image outer)) ↔
      KeptHere isIdent rw outer tree := by
  rw [KeptHere]
  match hflat : flattenUseTree tree with
  | some (segments, tail) =>
    simp only [touched_chain hflat h, imports_of_flatten hflat]
    constructor
    · intro ⟨tree', hbuilt, himports⟩
      obtain ⟨built, hbuilt, heq⟩ := Option.map_eq_some_iff.mp hbuilt
      obtain ⟨hidents, hbuiltImports⟩ := buildUseTree_eq_some hbuilt
      rw [← Option.some.inj heq, hbuiltImports] at himports
      have hone := List.head_eq_of_cons_eq himports
      rw [builtImport] at hone
      by_cases hnil : rw.rewriteSegments segments = []
      · rw [if_pos hnil] at hone
        have halias := congrArg Prod.snd hone
        cases htail : tail with
        | name =>
          rw [htail] at halias
          cases halias
        | rename r =>
          rw [htail] at halias
          cases halias
      · rw [if_neg hnil] at hone
        exact ⟨hnil, hidents, (congrArg Prod.fst hone).symm⟩
    · intro ⟨hnil, hidents, hpath⟩
      obtain ⟨built, hbuilt⟩ := buildUseTree_of_allIdents tail hidents
      refine ⟨built, by rw [hbuilt]; rfl, ?_⟩
      rw [(buildUseTree_eq_some hbuilt).2, builtImport, if_neg hnil, List.map_singleton,
        List.map_singleton, below, PathRewriter.image, hpath]
  | none =>
    obtain ⟨pre, items, hgroup, hsome, hexists, -⟩ :=
      @touched_group isIdent rw tree hflat h
    simp only [hgroup]
    have hkept : (∀ item ∈ items, Builds isIdent rw pre item) →
        ((((items.flatMap (itemImports rw pre)).map (below (finalPrefix rw pre items))).map
          (below outer) = (imports tree).map (rw.image outer)) ↔
        ∀ item ∈ items, KeptItem isIdent rw outer pre (finalPrefix rw pre items) item) := by
      intro hbuilds
      rw [(imports_of_groupPrefix hgroup).2, importsAll_eq, List.map_map, List.map_map,
        List.map_flatMap, List.map_flatMap, flatMap_eq_iff]
      · apply forall_congr'
        intro item
        apply imp_congr_right
        intro hitem
        exact itemImports_eq_iff (hbuilds item hitem)
      · intro item _
        rw [List.length_map, List.length_map, length_itemImports]
    constructor
    · intro ⟨tree', hvisit, himports⟩
      obtain ⟨hbuilds, hidents, htree'⟩ := hsome tree' hvisit
      rw [htree'] at himports
      exact ⟨hidents, (hkept hbuilds).mp himports⟩
    · intro ⟨hidents, hitems⟩
      have hbuilds : ∀ item ∈ items, Builds isIdent rw pre item := by
        intro item hitem e he
        have hitem := hitems item hitem
        rw [KeptItem, he] at hitem
        exact ⟨Nat.le_of_lt hitem.1, hitem.2.1⟩
      obtain ⟨tree', hvisit⟩ := hexists hbuilds hidents
      refine ⟨tree', hvisit, ?_⟩
      rw [(hsome tree' hvisit).2.2]
      exact (hkept hbuilds).mpr hitems

theorem visitHere_ne_none (h : touched rw tree = true) :
    visitHere isIdent rw tree ≠ some none := by
  match hflat : flattenUseTree tree with
  | some (segments, tail) =>
    rw [touched_chain hflat h]
    intro heq
    obtain ⟨_, _, hsome⟩ := Option.map_eq_some_iff.mp heq
    cases hsome
  | none =>
    obtain ⟨_, _, _, _, _, hne⟩ := @touched_group isIdent rw tree hflat h
    exact hne

/-- A node: replaced where it is touched, and otherwise left to `rest`. -/
def visitNode (isIdent : Text → Bool) (rw : PathRewriter) (tree : UseTree)
    (rest : Option (UseTree × Bool)) : Option (UseTree × Bool) :=
  (visitHere isIdent rw tree).bind fun here =>
    match here with
    | some tree' => some (tree', true)
    | none => rest

variable {rest : Option (UseTree × Bool)}

theorem visitNode_of_untouched (h : touched rw tree = false) :
    visitNode isIdent rw tree rest = rest := by
  rw [visitNode, visitHere_of_untouched h]
  rfl

theorem visitNode_eq_some {e : UseTree × Bool} (h : touched rw tree = true) :
    visitNode isIdent rw tree rest = some e ↔
      ∃ tree', visitHere isIdent rw tree = some (some tree') ∧ e = (tree', true) := by
  have hne := @visitHere_ne_none isIdent rw tree h
  rw [visitNode]
  cases hhere : visitHere isIdent rw tree with
  | none => simp
  | some here =>
    cases here with
    | none => exact absurd hhere hne
    | some tree' => simp [eq_comm]

theorem visitUseTree_path (ident : Text) (tree : UseTree) :
    visitUseTree isIdent rw (.path ident tree) = visitNode isIdent rw (.path ident tree)
      ((visitUseTree isIdent rw tree).bind fun e => some (.path ident e.1, e.2)) := by
  rw [visitUseTree]
  rfl

theorem visitUseTree_name (ident : Text) :
    visitUseTree isIdent rw (.name ident) = visitNode isIdent rw (.name ident)
      (some (.name ident, false)) := by
  rw [visitUseTree]
  rfl

theorem visitUseTree_rename (ident rename : Text) :
    visitUseTree isIdent rw (.rename ident rename) = visitNode isIdent rw (.rename ident rename)
      (some (.rename ident rename, false)) := by
  rw [visitUseTree]
  rfl

theorem visitUseTree_group (items : List UseTree) :
    visitUseTree isIdent rw (.group items) = visitNode isIdent rw (.group items)
      ((visitUseTrees isIdent rw items).bind fun e => some (.group e.1, e.2)) := by
  rw [visitUseTree]
  rfl

/-- At a touched node the visitor's tree is the replacement. -/
theorem visitNode_iff (outer : List Text) (h : touched rw tree = true) :
    (∃ e, visitNode isIdent rw tree rest = some e ∧
      (imports e.1).map (below outer) = (imports tree).map (rw.image outer)) ↔
      KeptHere isIdent rw outer tree := by
  rw [← visitHere_iff outer h]
  constructor
  · intro ⟨e, he, himports⟩
    obtain ⟨tree', hhere, rfl⟩ := (visitNode_eq_some h).mp he
    exact ⟨tree', hhere, himports⟩
  · intro ⟨tree', hhere, himports⟩
    exact ⟨(tree', true), (visitNode_eq_some h).mpr ⟨tree', hhere, rfl⟩, himports⟩

/-! ### The number of imports -/

theorem length_visitHere {tree' : UseTree} (h : touched rw tree = true)
    (hvisit : visitHere isIdent rw tree = some (some tree')) :
    (imports tree').length = (imports tree).length := by
  match hflat : flattenUseTree tree with
  | some (segments, tail) =>
    rw [touched_chain hflat h] at hvisit
    obtain ⟨built, hbuilt, heq⟩ := Option.map_eq_some_iff.mp hvisit
    rw [← Option.some.inj heq, (buildUseTree_eq_some hbuilt).2, imports_of_flatten hflat]
    rfl
  | none =>
    obtain ⟨pre, items, hgroup, hsome, -, -⟩ := @touched_group isIdent rw tree hflat h
    rw [(hsome tree' hvisit).2.2, (imports_of_groupPrefix hgroup).2, importsAll_eq,
      List.length_map, List.length_map, List.length_flatMap, List.length_flatMap]
    simp only [length_itemImports]

theorem length_visitNode {e : UseTree × Bool}
    (hrest : ∀ e, rest = some e → (imports e.1).length = (imports tree).length)
    (h : visitNode isIdent rw tree rest = some e) :
    (imports e.1).length = (imports tree).length := by
  by_cases htouched : touched rw tree = true
  · obtain ⟨tree', hhere, rfl⟩ := (visitNode_eq_some htouched).mp h
    exact length_visitHere htouched hhere
  · rw [visitNode_of_untouched (Bool.eq_false_iff.mpr htouched)] at h
    exact hrest e h

mutual

theorem length_visitUseTree : ∀ (tree : UseTree) {e : UseTree × Bool},
    visitUseTree isIdent rw tree = some e → (imports e.1).length = (imports tree).length
  | .path ident tree, e, h => by
    rw [visitUseTree_path] at h
    refine length_visitNode ?_ h
    intro e he
    obtain ⟨e', he', heq⟩ := Option.bind_eq_some_iff.mp he
    rw [← Option.some.inj heq, imports, imports, List.length_map, List.length_map]
    exact length_visitUseTree tree he'
  | .name ident, e, h => by
    rw [visitUseTree_name] at h
    refine length_visitNode ?_ h
    intro e he
    rw [← Option.some.inj he]
  | .rename ident rename, e, h => by
    rw [visitUseTree_rename] at h
    refine length_visitNode ?_ h
    intro e he
    rw [← Option.some.inj he]
  | .glob, e, h => by
    rw [visitUseTree] at h
    rw [← Option.some.inj h]
  | .group items, e, h => by
    rw [visitUseTree_group] at h
    refine length_visitNode ?_ h
    intro e he
    obtain ⟨e', he', heq⟩ := Option.bind_eq_some_iff.mp he
    rw [← Option.some.inj heq, imports, imports]
    exact length_visitUseTrees items he'

theorem length_visitUseTrees : ∀ (items : List UseTree) {e : List UseTree × Bool},
    visitUseTrees isIdent rw items = some e →
      (importsAll e.1).length = (importsAll items).length
  | [], e, h => by
    rw [visitUseTrees] at h
    rw [← Option.some.inj h]
  | item :: items, e, h => by
    rw [visitUseTrees, Option.bind_eq_bind, Option.bind_eq_some_iff] at h
    obtain ⟨e₁, he₁, h⟩ := h
    obtain ⟨e₂, he₂, h⟩ := Option.bind_eq_some_iff.mp h
    rw [← Option.some.inj h, importsAll, importsAll, List.length_append, List.length_append,
      length_visitUseTree item he₁, length_visitUseTrees items he₂]

end

/-! ### The whole visit -/

mutual

theorem visitUseTree_iff : ∀ (tree : UseTree) (outer : List Text),
    (∃ e, visitUseTree isIdent rw tree = some e ∧
      (imports e.1).map (below outer) = (imports tree).map (rw.image outer)) ↔
      Kept isIdent rw outer tree
  | .path ident tree, outer => by
    rw [visitUseTree_path, Kept]
    by_cases h : touched rw (.path ident tree) = true
    · rw [if_pos h]
      exact visitNode_iff outer h
    · rw [if_neg h, visitNode_of_untouched (Bool.eq_false_iff.mpr h),
        ← visitUseTree_iff tree (outer ++ [ident])]
      have hbelow : ∀ l : List (List Text × Alias),
          (l.map fun e => (ident :: e.1, e.2)).map (below outer) =
            l.map (below (outer ++ [ident])) := by
        intro l
        rw [List.map_map]
        apply List.map_congr_left
        intro e _
        simp [below]
      have himage : ((imports tree).map fun e => (ident :: e.1, e.2)).map (rw.image outer) =
          (imports tree).map (rw.image (outer ++ [ident])) := by
        rw [List.map_map]
        apply List.map_congr_left
        intro e _
        simp [PathRewriter.image]
      constructor
      · intro ⟨e, he, himports⟩
        obtain ⟨e', he', heq⟩ := Option.bind_eq_some_iff.mp he
        rw [← Option.some.inj heq, imports, imports, hbelow, himage] at himports
        exact ⟨e', he', himports⟩
      · intro ⟨e', he', himports⟩
        refine ⟨_, by rw [he']; rfl, ?_⟩
        rw [imports, imports, hbelow, himage]
        exact himports
  | .name ident, outer => by
    rw [visitUseTree_name, Kept]
    by_cases h : touched rw (.name ident) = true
    · rw [if_pos h]
      exact visitNode_iff outer h
    · rw [if_neg h, visitNode_of_untouched (Bool.eq_false_iff.mpr h)]
      simp [imports, below, PathRewriter.image, eq_comm]
  | .rename ident rename, outer => by
    rw [visitUseTree_rename, Kept]
    by_cases h : touched rw (.rename ident rename) = true
    · rw [if_pos h]
      exact visitNode_iff outer h
    · rw [if_neg h, visitNode_of_untouched (Bool.eq_false_iff.mpr h)]
      simp [imports, below, PathRewriter.image, eq_comm]
  | .glob, outer => by
    rw [visitUseTree, Kept]
    simp [imports, below, PathRewriter.image, eq_comm]
  | .group items, outer => by
    rw [visitUseTree_group, Kept]
    by_cases h : touched rw (.group items) = true
    · rw [if_pos h]
      exact visitNode_iff outer h
    · rw [if_neg h, visitNode_of_untouched (Bool.eq_false_iff.mpr h),
        ← visitUseTrees_iff items outer]
      constructor
      · intro ⟨e, he, himports⟩
        obtain ⟨e', he', heq⟩ := Option.bind_eq_some_iff.mp he
        rw [← Option.some.inj heq, imports, imports] at himports
        exact ⟨e', he', himports⟩
      · intro ⟨e', he', himports⟩
        refine ⟨_, by rw [he']; rfl, ?_⟩
        rw [imports, imports]
        exact himports

theorem visitUseTrees_iff : ∀ (items : List UseTree) (outer : List Text),
    (∃ e, visitUseTrees isIdent rw items = some e ∧
      (importsAll e.1).map (below outer) = (importsAll items).map (rw.image outer)) ↔
      KeptAll isIdent rw outer items
  | [], outer => by
    rw [visitUseTrees, KeptAll]
    simp [importsAll]
  | item :: items, outer => by
    rw [visitUseTrees, KeptAll, ← visitUseTree_iff item outer, ← visitUseTrees_iff items outer]
    constructor
    · intro ⟨e, he, himports⟩
      obtain ⟨e₁, he₁, h⟩ := Option.bind_eq_some_iff.mp he
      obtain ⟨e₂, he₂, heq⟩ := Option.bind_eq_some_iff.mp h
      rw [← Option.some.inj heq, importsAll, importsAll, List.map_append, List.map_append]
        at himports
      obtain ⟨hhead, htail⟩ := List.append_inj himports
        (by rw [List.length_map, List.length_map, length_visitUseTree item he₁])
      exact ⟨⟨e₁, he₁, hhead⟩, ⟨e₂, he₂, htail⟩⟩
    · intro ⟨⟨e₁, he₁, hhead⟩, ⟨e₂, he₂, htail⟩⟩
      refine ⟨_, by rw [he₁, he₂]; rfl, ?_⟩
      rw [importsAll, importsAll, List.map_append, List.map_append, hhead, htail]

end

end Visit

/-! ### Imports of a renamed tree -/

/-- The ASCII part of what the tokenizer takes for an identifier. -/
def asciiIdent : Text → Bool
  | [] => false
  | c :: rest => (c.isAlpha || c == '_') && rest.all fun d => d.isAlphanum || d == '_'

/-- Where the condition holds the visitor does not panic and every import is rewritten as
    its whole path; and only there it is, import by import. -/
theorem use_tree_imports_kept (isIdent : Text → Bool) (rw : PathRewriter) (tree : UseTree) :
    (Kept isIdent rw [] tree → ∃ e, visitUseTree isIdent rw tree = some e ∧
      (imports e.1).Perm ((imports tree).map fun i => (rw.rewriteSegments i.1, i.2))) ∧
    ((∃ e, visitUseTree isIdent rw tree = some e ∧
      imports e.1 = (imports tree).map fun i => (rw.rewriteSegments i.1, i.2)) ↔
        Kept isIdent rw [] tree) := by
  have hiff := @visitUseTree_iff isIdent rw tree []
  have hbelow : below [] = id := funext below_nil
  have himage : rw.image [] = fun i => (rw.rewriteSegments i.1, i.2) := rfl
  simp only [hbelow, List.map_id, himage] at hiff
  refine ⟨?_, hiff⟩
  intro h
  obtain ⟨e, he, himports⟩ := hiff.mpr h
  exact ⟨e, he, by rw [himports]⟩

/-- A group in which every item is below the old path, one of them renamed. -/
theorem use_tree_imports_kept_group :
    let rw := PathRewriter.replacePrefix ["k".toList] ["m".toList]
    let tree := UseTree.path "k".toList
      (.group [.name "a".toList, .path "b".toList (.rename "c".toList "d".toList)])
    ∃ e, visitUseTree asciiIdent rw tree = some e ∧
      (imports e.1).Perm ((imports tree).map fun i => (rw.rewriteSegments i.1, i.2)) := by
  intro rw tree
  apply (use_tree_imports_kept asciiIdent rw tree).1
  apply (if_pos (by decide : touched rw tree = true)).mpr
  refine ⟨fun _ => ?_, ?_⟩
  · show ∀ s ∈ ["m".toList], asciiIdent s = true
    decide
  · refine List.forall_mem_cons.mpr ⟨?_, List.forall_mem_singleton.mpr ?_⟩
    · refine ⟨by decide, ?_, by decide⟩
      show ∀ s ∈ ["a".toList], asciiIdent s = true
      decide
    · refine ⟨by decide, ?_, by decide⟩
      show ∀ s ∈ ["b".toList, "c".toList], asciiIdent s = true
      decide

/-- `use k::{a, b}` becomes `use m::{a, b}` when only `k::a` moves to `m::a`. -/
theorem group_prefix_moves_siblings :
    let rw := PathRewriter.replaceFull ["k".toList, "a".toList] ["m".toList, "a".toList]
    let tree := UseTree.path "k".toList (.group [.name "a".toList, .name "b".toList])
    ¬ ∃ e, visitUseTree asciiIdent rw tree = some e ∧
      (imports e.1).Perm ((imports tree).map fun i => (rw.rewriteSegments i.1, i.2)) := by
  intro rw tree ⟨e, he, hperm⟩
  have hvisit : visitUseTree asciiIdent rw tree = some (.path "m".toList
      (.group [.name "a".toList, .name "b".toList]), true) := by rfl
  rw [hvisit] at he
  rw [← Option.some.inj he] at hperm
  revert hperm
  decide

end Canon.Editor
