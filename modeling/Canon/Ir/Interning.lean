import Canon.Lib.Machine
import Canon.Lib.Numbering
import Canon.Ir.Arena

/-! # Interning over whole runs

    Each of the three tables of texts and the types of the arena is a `KeyNumbering`: keys
    are told apart, and numbers lead back to texts, as long as nothing enters behind the
    reach of a `u32`.  The reverse maps are those that `restore` builds, so a
    representation that is serialised and loaded again answers every later call alike.
-/

namespace Canon.Ir

variable {Other : Type}

/-! ### Sessions -/

inductive Call (Other : Type) where
  | name (s : Text)
  | path (s : Text)
  | body (s : Text)
  | type (kind : TypeKind)
  | push (node : Other)

namespace Call

def nameKey : Call Other → Option Text
  | .name s => some s
  | _ => none

/-- Paths count up to their canonical form. -/
def pathKey : Call Other → Option Text
  | .path s => (canonicalPathForm s).toOption
  | _ => none

def bodyKey : Call Other → Option Text
  | .body s => some s
  | _ => none

def typeKey : Call Other → Option TypeKind
  | .type kind => some kind
  | _ => none

end Call

def CanonIR.call (ir : CanonIR Other) : Call Other → CanonIR Other × Except Text UInt32
  | .name s => ((ir.internName s).1, .ok (ir.internName s).2)
  | .path s => ir.internPath s
  | .body s => ((ir.internBody s).1, .ok (ir.internBody s).2)
  | .type kind => ((ir.internType kind).1, .ok (ir.internType kind).2)
  | .push node => ((ir.pushNode (.other node)).1, .ok (ir.pushNode (.other node)).2)

/-- A representation with the calls on it and their answers. -/
structure Session (Other : Type) where
  ir : CanonIR Other
  answers : List (Call Other × Except Text UInt32)

/-- The key of a call with the number that was its answer. -/
def issuedBy {κ : Type} (key : Call Other → Option κ) (e : Call Other × Except Text UInt32) :
    Option (κ × UInt32) :=
  match key e.1, e.2 with
  | some k, .ok id => some (k, id)
  | _, _ => none

namespace Session

def new : Session Other where
  ir := .new
  answers := []

def issued {κ : Type} (s : Session Other) (key : Call Other → Option κ) : List (κ × UInt32) :=
  s.answers.filterMap (issuedBy key)

/-- Serialised, loaded and restored. -/
def reloaded (s : Session Other) : Session Other where
  ir := s.ir.deserialized.restore
  answers := s.answers

end Session

def sessions : Machine (Session Other) (Call Other) where
  step s c := ⟨(s.ir.call c).1, s.answers ++ [(c, (s.ir.call c).2)]⟩

/-- Equal keys have one number and distinct keys distinct ones, and a number leads back to
    its text. -/
structure Sound (s : Session Other) : Prop where
  names : KeyNumbering.Separates (s.issued Call.nameKey)
  paths : KeyNumbering.Separates (s.issued Call.pathKey)
  bodies : KeyNumbering.Separates (s.issued Call.bodyKey)
  types : KeyNumbering.Separates (s.issued Call.typeKey)
  nameTexts : ∀ e ∈ s.issued Call.nameKey, s.ir.lookupName e.2 = some e.1
  pathTexts : ∀ e ∈ s.issued Call.pathKey, s.ir.lookupPath e.2 = some e.1
  bodyTexts : ∀ e ∈ s.issued Call.bodyKey, s.ir.lookupBody e.2 = some e.1

/-- A text that is new enters a table whose length is a `u32`. -/
def Interner.Room (t : Interner) (s : Text) : Prop := t.map s = none → t.vec.length < 2 ^ 32

/-- A type that is new enters where no other type would have its number. -/
def CanonIR.TypeRoom (ir : CanonIR Other) (kind : TypeKind) : Prop :=
  ir.typeIndex kind = none → ∀ p node, ir.nodes[p]? = some node →
    node.kind.typeKind? ≠ none → p % 2 ^ 32 ≠ ir.nodes.length % 2 ^ 32

def CanonIR.Room (ir : CanonIR Other) : Call Other → Prop
  | .name s => ir.nameIntern.Room s
  | .path s => ∀ normalized, canonicalPathForm s = .ok normalized → ir.pathIntern.Room normalized
  | .body s => ir.bodyIntern.Room s
  | .type kind => ir.TypeRoom kind
  | .push _ => True

/-! ### The four tables -/

def opOf {κ : Type} : Option κ → KeyNumbering.Op κ
  | some k => .intern k
  | none => .idle

def Call.typeOp : Call Other → KeyNumbering.Op TypeKind
  | .type kind => .intern kind
  | .push _ => .skip
  | _ => .idle

def Interner.numbering (t : Interner) (issued : List (Text × UInt32)) : KeyNumbering Text where
  slots := t.vec.map some
  index := t.map
  issued := issued

/-- The types of the arena. -/
def Session.types (s : Session Other) : KeyNumbering TypeKind where
  slots := s.ir.nodes.map (·.kind.typeKind?)
  index := s.ir.typeIndex
  issued := s.issued Call.typeKey

section Step

variable (s : Session Other) (c : Call Other)

theorem issued_step {κ : Type} (key : Call Other → Option κ) :
    (sessions.step s c).issued key =
      s.issued key ++ (issuedBy key (c, (s.ir.call c).2)).toList := by
  show (s.answers ++ [_]).filterMap _ = _
  rw [List.filterMap_append]
  congr 1

theorem issued_step_idle {κ : Type} {key : Call Other → Option κ} (h : key c = none) :
    (sessions.step s c).issued key = s.issued key := by
  rw [issued_step, issuedBy, h]
  simp

theorem issued_step_intern {κ : Type} {key : Call Other → Option κ} {k : κ} {id : UInt32}
    (h : key c = some k) (hanswer : (s.ir.call c).2 = .ok id) :
    (sessions.step s c).issued key = s.issued key ++ [(k, id)] := by
  rw [issued_step, issuedBy, h, hanswer]
  simp

end Step

variable {s : Session Other} {key : Call Other → Option Text} {ir : CanonIR Other}
    {table : CanonIR Other → Interner}

/-- A table of texts that is reached by the calls with a key for it, and by no others. -/
def Serves (table : CanonIR Other → Interner) (key : Call Other → Option Text) : Prop :=
  ∀ ir c,
    (key c = none ∧ table (ir.call c).1 = table ir) ∨
    ∃ x, key c = some x ∧ table (ir.call c).1 = ((table ir).intern x).1 ∧
      (ir.call c).2 = .ok ((table ir).intern x).2

theorem internPath_ok {x normalized : Text} (h : canonicalPathForm x = .ok normalized) :
    ir.internPath x = ({ ir with pathIntern := (ir.pathIntern.intern normalized).1 },
      .ok (ir.pathIntern.intern normalized).2) := by
  rw [CanonIR.internPath, h]

theorem internPath_error {x e : Text} (h : canonicalPathForm x = .error e) :
    ir.internPath x = (ir, .error e) := by
  rw [CanonIR.internPath, h]

theorem internPath_tables (ir : CanonIR Other) (x : Text) :
    (ir.internPath x).1.nameIntern = ir.nameIntern ∧
      (ir.internPath x).1.bodyIntern = ir.bodyIntern ∧
      (ir.internPath x).1.nodes = ir.nodes ∧ (ir.internPath x).1.typeIndex = ir.typeIndex := by
  cases h : canonicalPathForm x with
  | error e => simp [internPath_error h]
  | ok normalized => simp [internPath_ok h]

theorem internType_tables (ir : CanonIR Other) (kind : TypeKind) :
    (ir.internType kind).1.nameIntern = ir.nameIntern ∧
      (ir.internType kind).1.pathIntern = ir.pathIntern ∧
      (ir.internType kind).1.bodyIntern = ir.bodyIntern := by
  unfold CanonIR.internType
  split
  · exact ⟨rfl, rfl, rfl⟩
  · exact ⟨rfl, rfl, rfl⟩

theorem serves_names : Serves (@CanonIR.nameIntern Other) Call.nameKey := by
  intro ir c
  cases c with
  | name x => exact .inr ⟨x, rfl, rfl, rfl⟩
  | path x => exact .inl ⟨rfl, (internPath_tables ir x).1⟩
  | body x => exact .inl ⟨rfl, rfl⟩
  | type kind => exact .inl ⟨rfl, (internType_tables ir kind).1⟩
  | push node => exact .inl ⟨rfl, rfl⟩

theorem serves_paths : Serves (@CanonIR.pathIntern Other) Call.pathKey := by
  intro ir c
  cases c with
  | name x => exact .inl ⟨rfl, rfl⟩
  | path x =>
    cases h : canonicalPathForm x with
    | error e =>
      refine .inl ⟨by simp [Call.pathKey, h, Except.toOption], ?_⟩
      show (ir.internPath x).1.pathIntern = _
      rw [internPath_error h]
    | ok normalized =>
      refine .inr ⟨normalized, by simp [Call.pathKey, h, Except.toOption], ?_⟩
      show (ir.internPath x).1.pathIntern = _ ∧ (ir.internPath x).2 = _
      rw [internPath_ok h]
      exact ⟨rfl, rfl⟩
  | body x => exact .inl ⟨rfl, rfl⟩
  | type kind => exact .inl ⟨rfl, (internType_tables ir kind).2.1⟩
  | push node => exact .inl ⟨rfl, rfl⟩

theorem serves_bodies : Serves (@CanonIR.bodyIntern Other) Call.bodyKey := by
  intro ir c
  cases c with
  | name x => exact .inl ⟨rfl, rfl⟩
  | path x => exact .inl ⟨rfl, (internPath_tables ir x).2.1⟩
  | body x => exact .inr ⟨x, rfl, rfl, rfl⟩
  | type kind => exact .inl ⟨rfl, (internType_tables ir kind).2.2⟩
  | push node => exact .inl ⟨rfl, rfl⟩

theorem numbering_intern (t : Interner) (issued : List (Text × UInt32)) (x : Text) :
    (t.numbering issued).step (.intern x) =
      (t.intern x).1.numbering (issued ++ [(x, (t.intern x).2)]) := by
  cases h : t.map x with
  | some id =>
    rw [KeyNumbering.step_intern_known h]
    simp [Interner.intern, Interner.numbering, h]
  | none =>
    rw [KeyNumbering.step_intern_new h]
    simp [Interner.intern, Interner.numbering, h]

/-- A table of texts takes the steps of a numbering. -/
theorem Serves.numbering_step (h : Serves table key) (s : Session Other) (c : Call Other) :
    (table (sessions.step s c).ir).numbering ((sessions.step s c).issued key) =
      ((table s.ir).numbering (s.issued key)).step (opOf (key c)) := by
  rcases h s.ir c with ⟨hkey, htable⟩ | ⟨x, hkey, htable, hanswer⟩
  · rw [issued_step_idle s c hkey, hkey]
    show (table (s.ir.call c).1).numbering _ = (table s.ir).numbering _
    rw [htable]
  · rw [issued_step_intern s c hkey hanswer, hkey]
    show (table (s.ir.call c).1).numbering _ = ((table s.ir).numbering _).step (.intern x)
    rw [htable, numbering_intern]

theorem types_intern (s : Session Other) (kind : TypeKind) :
    (sessions.step s (.type kind)).types = s.types.step (.intern kind) := by
  have hkey : Call.typeKey (.type kind : Call Other) = some kind := rfl
  unfold Session.types
  rw [issued_step_intern s (.type kind) hkey rfl]
  show KeyNumbering.mk ((s.ir.internType kind).1.nodes.map _) (s.ir.internType kind).1.typeIndex _ =
    _
  cases h : s.ir.typeIndex kind with
  | some id =>
    rw [KeyNumbering.step_intern_known h]
    simp [CanonIR.internType, h]
  | none =>
    rw [KeyNumbering.step_intern_new h]
    simp [CanonIR.internType, CanonIR.pushNode, CanonNodeKind.typeKind?, h]

/-- The types of the arena take the steps of a numbering. -/
theorem types_step (s : Session Other) (c : Call Other) :
    (sessions.step s c).types = s.types.step c.typeOp := by
  cases c with
  | type kind => exact types_intern s kind
  | name x =>
    unfold Session.types
    rw [issued_step_idle s (.name x) rfl]
    rfl
  | body x =>
    unfold Session.types
    rw [issued_step_idle s (.body x) rfl]
    rfl
  | path x =>
    obtain ⟨-, -, hnodes, hindex⟩ := internPath_tables s.ir x
    unfold Session.types
    rw [issued_step_idle s (.path x) rfl]
    show KeyNumbering.mk ((s.ir.internPath x).1.nodes.map _) (s.ir.internPath x).1.typeIndex _ = _
    rw [hnodes, hindex]
    rfl
  | push node =>
    unfold Session.types
    rw [issued_step_idle s (.push node) rfl]
    show KeyNumbering.mk ((s.ir.nodes ++ [_]).map _) s.ir.typeIndex _ = _
    rw [List.map_append]
    rfl

/-! ### Restoring -/

/-- Every reverse map is the one that is built from what is serialised. -/
structure CanonIR.Indexed (ir : CanonIR Other) : Prop where
  names : ir.nameIntern.restoreIndex = ir.nameIntern
  paths : ir.pathIntern.restoreIndex = ir.pathIntern
  bodies : ir.bodyIntern.restoreIndex = ir.bodyIntern
  types : ir.nodes.foldl CanonIR.indexNode FMap.empty = ir.typeIndex

theorem CanonIR.Indexed.restore_deserialized (h : ir.Indexed) :
    ir.deserialized.restore = ir := by
  show CanonIR.mk ir.nodes ir.nameIntern.restoreIndex ir.pathIntern.restoreIndex
    ir.bodyIntern.restoreIndex (ir.nodes.foldl CanonIR.indexNode FMap.empty) = ir
  rw [h.names, h.paths, h.bodies, h.types]

theorem indexed_new : (CanonIR.new : CanonIR Other).Indexed := ⟨rfl, rfl, rfl, rfl⟩

theorem restoreIndex_intern {t : Interner} (h : t.restoreIndex = t) (x : Text) :
    (t.intern x).1.restoreIndex = (t.intern x).1 := by
  unfold Interner.intern
  split
  · exact h
  · have hmap : FMap.empty.insertAll (t.vec.zipIdx.map fun e => (e.1, UInt32.ofNat e.2)) = t.map :=
      congrArg Interner.map h
    -- The last entry of the table is the last that the map is given.
    show Interner.mk (t.vec ++ [x]) (FMap.empty.insertAll ((t.vec ++ [x]).zipIdx.map
      fun e => (e.1, UInt32.ofNat e.2))) = Interner.mk (t.vec ++ [x]) _
    rw [List.zipIdx_append, List.map_append]
    simp only [List.zipIdx_cons, List.zipIdx_nil, List.map_cons, List.map_nil, Nat.zero_add]
    rw [FMap.insertAll_concat, hmap]

theorem Serves.restoreIndex_call (h : Serves table key) (hir : (table ir).restoreIndex = table ir)
    (c : Call Other) :
    (table (ir.call c).1).restoreIndex = table (ir.call c).1 := by
  rcases h ir c with ⟨-, htable⟩ | ⟨x, -, htable, -⟩
  · rw [htable, hir]
  · rw [htable, restoreIndex_intern hir]

theorem typeIndex_call (h : ir.nodes.foldl CanonIR.indexNode FMap.empty = ir.typeIndex)
    (c : Call Other) :
    (ir.call c).1.nodes.foldl CanonIR.indexNode FMap.empty = (ir.call c).1.typeIndex := by
  cases c with
  | name x => exact h
  | body x => exact h
  | path x =>
    obtain ⟨-, -, hnodes, hindex⟩ := internPath_tables ir x
    show (ir.internPath x).1.nodes.foldl _ _ = (ir.internPath x).1.typeIndex
    rw [hnodes, hindex, h]
  | push node =>
    show (ir.nodes ++ [_]).foldl _ _ = ir.typeIndex
    rw [List.foldl_concat, h]
    rfl
  | type kind =>
    show (ir.internType kind).1.nodes.foldl _ _ = (ir.internType kind).1.typeIndex
    unfold CanonIR.internType
    split
    · exact h
    · rename_i hnew
      -- A new type is not in the index, so its node is the first of it.
      show (ir.nodes ++ [_]).foldl _ _ = ir.typeIndex.insert kind _
      rw [List.foldl_concat, h]
      simp [CanonIR.indexNode, CanonIR.pushNode, hnew]

theorem CanonIR.Indexed.call (h : ir.Indexed) (c : Call Other) :
    (ir.call c).1.Indexed where
  names := serves_names.restoreIndex_call h.names c
  paths := serves_paths.restoreIndex_call h.paths c
  bodies := serves_bodies.restoreIndex_call h.bodies c
  types := typeIndex_call h.types c

/-! ### Runs -/

structure Session.Inv (s : Session Other) : Prop where
  names : (s.ir.nameIntern.numbering (s.issued Call.nameKey)).Inv
  paths : (s.ir.pathIntern.numbering (s.issued Call.pathKey)).Inv
  bodies : (s.ir.bodyIntern.numbering (s.issued Call.bodyKey)).Inv
  types : s.types.Inv
  indexed : s.ir.Indexed

theorem inv_new : (Session.new : Session Other).Inv where
  names := KeyNumbering.inv_empty
  paths := KeyNumbering.inv_empty
  bodies := KeyNumbering.inv_empty
  types := KeyNumbering.inv_empty
  indexed := indexed_new

theorem Serves.inv_step (h : Serves table key) (hs : ((table s.ir).numbering (s.issued key)).Inv)
    (c : Call Other) :
    ((table (sessions.step s c).ir).numbering ((sessions.step s c).issued key)).Inv := by
  rw [h.numbering_step]
  exact hs.step _

theorem Session.Inv.step (h : s.Inv) (c : Call Other) :
    (sessions.step s c).Inv where
  names := serves_names.inv_step h.names c
  paths := serves_paths.inv_step h.paths c
  bodies := serves_bodies.inv_step h.bodies c
  types := by
    rw [types_step]
    exact h.types.step _
  indexed := h.indexed.call c

/-- In a table without gaps a number leads back to its text. -/
theorem lookup_of_separates {t : Interner} {issued : List (Text × UInt32)}
    (h : (t.numbering issued).Inv) (hsep : KeyNumbering.Separates issued) {e : Text × UInt32}
    (he : e ∈ issued) : t.lookup e.2 = some e.1 := by
  have hget := h.getElem?_of_full (by simp [Interner.numbering]) hsep he
  simpa [Interner.numbering, Interner.lookup] using hget

theorem Session.Inv.sound_iff (h : s.Inv) :
    Sound s ↔ KeyNumbering.Separates (s.issued Call.nameKey) ∧
      KeyNumbering.Separates (s.issued Call.pathKey) ∧
        KeyNumbering.Separates (s.issued Call.bodyKey) ∧
      KeyNumbering.Separates (s.issued Call.typeKey) := by
  constructor
  · intro hs
    exact ⟨hs.names, hs.paths, hs.bodies, hs.types⟩
  · rintro ⟨hnames, hpaths, hbodies, htypes⟩
    exact ⟨hnames, hpaths, hbodies, htypes, fun _ => lookup_of_separates h.names hnames,
      fun _ => lookup_of_separates h.paths hpaths, fun _ => lookup_of_separates h.bodies hbodies⟩

theorem fits_text_iff (t : Interner) (issued : List (Text × UInt32)) (key : Option Text) :
    (t.numbering issued).Fits (opOf key) ↔ ∀ x, key = some x → t.Room x := by
  cases key with
  | none => simp [opOf, KeyNumbering.Fits]
  | some x =>
    have hroom :=
      KeyNumbering.room_iff_of_full (t := t.numbering issued) (by simp [Interner.numbering])
    have hlen : (t.numbering issued).slots.length = t.vec.length := by simp [Interner.numbering]
    rw [hlen] at hroom
    simp only [opOf, KeyNumbering.Fits, hroom, Option.some.injEq, forall_eq']
    exact Iff.rfl

/-- A table of texts stays sound exactly if a new text has room. -/
theorem Serves.separates_step_iff (h : Serves table key)
    (hs : ((table s.ir).numbering (s.issued key)).Inv)
    (hsep : KeyNumbering.Separates (s.issued key)) (c : Call Other) :
    KeyNumbering.Separates ((sessions.step s c).issued key) ↔
      ∀ x, key c = some x → (table s.ir).Room x := by
  have hstep := hs.separates_step_iff hsep (opOf (key c))
  rw [← h.numbering_step, fits_text_iff] at hstep
  exact hstep

theorem fits_type_iff (s : Session Other) (kind : TypeKind) :
    s.types.Fits (.intern kind) ↔ s.ir.TypeRoom kind := by
  have hlen : s.types.slots.length = s.ir.nodes.length := by simp [Session.types]
  apply imp_congr Iff.rfl
  unfold KeyNumbering.Room
  rw [hlen]
  constructor
  · intro hroom p node hp hkind
    obtain ⟨k, hk⟩ := Option.ne_none_iff_exists'.mp hkind
    apply hroom p k
    simp [Session.types, hp, hk]
  · intro hroom p k hp
    obtain ⟨node, hnode, hk⟩ : ∃ node, s.ir.nodes[p]? = some node ∧
        node.kind.typeKind? = some k := by simpa [Session.types] using hp
    exact hroom p node hnode (by simp [hk])

theorem separates_types_step_iff (hs : s.types.Inv)
    (hsep : KeyNumbering.Separates (s.issued Call.typeKey)) (c : Call Other) :
    KeyNumbering.Separates ((sessions.step s c).issued Call.typeKey) ↔
      ∀ kind, c.typeKey = some kind → s.ir.TypeRoom kind := by
  have hstep := hs.separates_step_iff hsep c.typeOp
  rw [← types_step] at hstep
  apply hstep.trans
  cases c with
  | type kind =>
    rw [Call.typeOp, fits_type_iff]
    simp [Call.typeKey]
  | _ => simp [Call.typeOp, Call.typeKey, KeyNumbering.Fits]

theorem Session.Inv.sound_step_iff (h : s.Inv) (hs : Sound s) (c : Call Other) :
    Sound (sessions.step s c) ↔ s.ir.Room c := by
  rw [(h.step c).sound_iff, serves_names.separates_step_iff h.names hs.names,
    serves_paths.separates_step_iff h.paths hs.paths,
    serves_bodies.separates_step_iff h.bodies hs.bodies,
    separates_types_step_iff h.types hs.types]
  cases c with
  | path x =>
    cases hx : canonicalPathForm x with
    | error e =>
      simp [Call.nameKey, Call.pathKey, Call.bodyKey, Call.typeKey, CanonIR.Room, hx,
        Except.toOption]
    | ok normalized =>
      simp [Call.nameKey, Call.pathKey, Call.bodyKey, Call.typeKey, CanonIR.Room, hx,
        Except.toOption]
  | _ => simp [Call.nameKey, Call.pathKey, Call.bodyKey, Call.typeKey, CanonIR.Room]

theorem sound_new : Sound (Session.new : Session Other) := by
  rw [inv_new.sound_iff]
  simp [Session.issued, Session.new, KeyNumbering.Separates]

/-- **Interning.**  In every state of a run the numbers are sound, and a representation
    that is loaded again at any point goes on alike, exactly if nothing new enters out of
    reach of a `u32`. -/
theorem interning_survives_iff (calls : List (Call Other)) :
    (sessions.Throughout Sound .new calls ∧
      ∀ before after, calls = before ++ after →
        sessions.run (sessions.run .new before).reloaded after = sessions.run .new calls) ↔
      sessions.Along (fun s c => s.ir.Room c) .new calls := by
  have hsound := sessions.throughout_iff_along (fun s c (h : s.Inv) => h.step c)
    (fun s c (h : s.Inv) hs => h.sound_step_iff hs c) calls inv_new sound_new
  rw [hsound, and_iff_left_iff_imp]
  rintro - before after rfl
  have hinv : (sessions.run .new before : Session Other).Inv :=
    sessions.run_invariant (fun s c h => h.step c) before inv_new
  -- Loading again gives the session itself.
  have hsame : (sessions.run .new before : Session Other).reloaded = sessions.run .new before := by
    rw [Session.reloaded, hinv.indexed.restore_deserialized]
  rw [hsame, Machine.run_append]

/-! ### A number that comes round again -/

theorem types_pushes (s : Session Other) (node : Other) (n : Nat) :
    (sessions.run s (List.replicate n (.push node))).types =
      ⟨s.types.slots ++ List.replicate n none, s.types.index, s.types.issued⟩ := by
  induction n generalizing s with
  | zero => simp
  | succ n ih =>
    rw [List.replicate_succ, Machine.run_cons, ih, types_step, List.replicate_succ]
    simp [Call.typeOp, KeyNumbering.step]

/-- Two types with `n` other nodes between them. -/
def farApart (n : Nat) : List (Call Unit) :=
  .type (.primitive .bool) :: (List.replicate n (.push ()) ++ [.type (.primitive .char)])

theorem types_farApart (n : Nat) :
    (sessions.run .new (farApart n)).issued Call.typeKey =
      [(.primitive .bool, 0), (.primitive .char, UInt32.ofNat (n + 1))] := by
  have hfirst : (sessions.step .new (.type (.primitive .bool)) : Session Unit).types =
      ⟨[some (.primitive .bool)], FMap.empty.insert (.primitive .bool) 0,
        [(.primitive .bool, 0)]⟩ := rfl
  rw [farApart, Machine.run_cons, Machine.run_snoc]
  show (Session.types _).issued = _
  rw [types_step, types_pushes, hfirst, Call.typeOp, KeyNumbering.step_intern_new rfl]
  simp

/-- With `2 ^ 32 - 1` nodes between them, two types have the same number. -/
theorem far_apart_types_share_id :
    ¬sessions.Throughout Sound .new (farApart (2 ^ 32 - 1)) := by
  intro h
  have hsep := (h _ List.prefix_rfl).types
  rw [types_farApart] at hsep
  have hsame := hsep (.primitive .bool, 0) (by simp)
    (.primitive .char, UInt32.ofNat (2 ^ 32 - 1 + 1)) (by simp)
  exact absurd (hsame.mp (by decide)) (by decide)

end Canon.Ir
