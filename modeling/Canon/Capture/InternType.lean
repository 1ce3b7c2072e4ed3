import Canon.Lib.Accumulate
import Canon.Lib.Decimal
import Canon.Capture.InternPath

/-! # Interning the types of the compiler

    `intern_ty_expr` of the capture's `assembler.rs`.  A type expression becomes a type of
    the arena from the inside out.  Lifetimes, the parameters and the signature of a
    function pointer and the name of a trait get a node of their own each time.
-/

namespace Canon.Capture

open Canon.Ir Accumulate

/-! ### Type expressions -/

inductive TypeExpr where
  | primitive (prim : PrimTy)
  | ref (lifetime : Option Text) (inner : TypeExpr) (mutable : Bool)
  | rawPtr (inner : TypeExpr) (mutable : Bool)
  | array (inner : TypeExpr) (len : Option UInt64)
  | slice (inner : TypeExpr)
  | tuple (items : List TypeExpr)
  | fnPtr (params : List TypeExpr) (ret : TypeExpr)
  | param (name : Text)
  | dynTrait (path : Text)
  | implTrait (path : Text)
  | appliedPath (base : Text) (args : List TypeExpr)
  | path (path : Text)

/-- The nodes that a type brings with it, and the other kinds.  The lists of generics and
    where clauses of a signature are empty here. -/
inductive CaptureNode (Rest : Type) where
  | lifetime (nameId : NameId)
  | param (nameId : NameId) (ty : CanonId) (flags : UInt32)
  | fnSig (params : List CanonId) (ret : CanonId)
  | typeRef (nameId : NameId)
  | rest (node : Rest)

abbrev CaptureIR (Rest : Type) := CanonIR (CaptureNode Rest)

inductive CaptureError where
  | allocArtifact (name : Text)
  | path (message : Text)
deriving DecidableEq

abbrev CaptureAction (Rest α : Type) := Action (CaptureIR Rest) CaptureError α

def isAllocArtifact (name : Text) : Bool :=
  Text.startsWith "__rust_" name || Text.startsWith "__rdl_" name ||
    Text.startsWith "alloc::" name || decide ('\x00' ∈ name) || Text.contains "\x7b\x7b" name ||
    Text.contains "\x7balloc" name || Text.contains "promoted[" name

/-- A type argument for the allocator, which is left out. -/
def isAllocatorArg : TypeExpr → Bool
  | .path p => Text.contains "std::alloc::Global" p || Text.contains "alloc::Global" p
  | _ => false

section Actions

variable {Rest : Type}

def pushNode (node : CaptureNode Rest) : CaptureAction Rest CanonId := fun ir =>
  ((ir.pushNode (.other node)).1, .ok (ir.pushNode (.other node)).2)

def internKind (kind : TypeKind) : CaptureAction Rest CanonId := fun ir =>
  ((ir.internType kind).1, .ok (ir.internType kind).2)

def internName (name : Text) : CaptureAction Rest NameId :=
  if isAllocArtifact name then Action.fail (.allocArtifact name)
  else fun ir => ((ir.internName name).1, .ok (ir.internName name).2)

def internPathId (raw : Text) : CaptureAction Rest PathId := fun ir =>
  ((internPath ir raw).1, (internPath ir raw).2.mapError .path)

def internLifetime : Option Text → CaptureAction Rest (Option CanonId)
  | none => pure none
  | some lt => do
    let nameId ← internName lt
    let id ← pushNode (.lifetime nameId)
    pure (some id)

def argName (i : Nat) : Text := "__fnptr_arg".toList ++ Text.ofNat i

mutual

def internTyExpr : TypeExpr → CaptureAction Rest CanonId
  | .primitive prim => internKind (.primitive prim)
  | .ref lifetime inner mutable => do
    let lifetime ← internLifetime lifetime
    let inner ← internTyExpr inner
    internKind (.ref lifetime inner mutable)
  | .rawPtr inner mutable => do
    let inner ← internTyExpr inner
    internKind (.rawPtr inner mutable)
  | .array inner len => do
    let inner ← internTyExpr inner
    match len with
    | some len => internKind (.array inner len)
    | none => internKind (.slice inner)
  | .slice inner => do
    let inner ← internTyExpr inner
    internKind (.slice inner)
  | .tuple items => do
    let elems ← internAll items
    internKind (.tuple elems)
  | .fnPtr params ret => do
    let params ← internParams 0 params
    let ret ← internTyExpr ret
    let sigId ← pushNode (.fnSig params ret)
    internKind (.fnPtr sigId)
  | .param name => do
    let nameId ← internName name
    internKind (.param nameId)
  | .dynTrait path => do
    let nameId ← internName path
    let traitId ← pushNode (.typeRef nameId)
    internKind (.dynTrait traitId)
  | .implTrait path => do
    let nameId ← internName path
    let traitId ← pushNode (.typeRef nameId)
    internKind (.implTrait traitId)
  | .appliedPath base args => do
    let basePathId ← internPathId (canonicalizePathFragment base)
    let baseTy ← internKind (.external basePathId)
    let args ← internArgs args
    internKind (.applied baseTy args)
  | .path path => do
    let pathId ← internPathId (canonicalizePathFragment path)
    internKind (.external pathId)

def internAll : List TypeExpr → CaptureAction Rest (List CanonId)
  | [] => pure []
  | item :: items => do
    let id ← internTyExpr item
    let ids ← internAll items
    pure (id :: ids)

/-- The parameters of a function pointer from the `i`-th on. -/
def internParams : Nat → List TypeExpr → CaptureAction Rest (List CanonId)
  | _, [] => pure []
  | i, p :: params => do
    let nameId ← internName (argName i)
    let ty ← internTyExpr p
    let id ← pushNode (.param nameId ty 0)
    let ids ← internParams (i + 1) params
    pure (id :: ids)

def internArgs : List TypeExpr → CaptureAction Rest (List CanonId)
  | [] => pure []
  | arg :: args =>
    if isAllocatorArg arg then internArgs args
    else do
      let id ← internTyExpr arg
      let ids ← internArgs args
      pure (id :: ids)

end

end Actions

/-! ### What an expression does -/

mutual

/-- No name that is reached is an artifact. -/
def answers : TypeExpr → Bool
  | .primitive _ => true
  | .ref lifetime inner _ => lifetime.all (fun lt => !isAllocArtifact lt) && answers inner
  | .rawPtr inner _ => answers inner
  | .array inner _ => answers inner
  | .slice inner => answers inner
  | .tuple items => answersAll items
  | .fnPtr params ret => answersAll params && answers ret
  | .param name => !isAllocArtifact name
  | .dynTrait path => !isAllocArtifact path
  | .implTrait path => !isAllocArtifact path
  | .appliedPath _ args => answersAll args
  | .path _ => true

def answersAll : List TypeExpr → Bool
  | [] => true
  | item :: items => answers item && answersAll items

end

mutual

/-- A reference with a lifetime, a function pointer, a trait object or an `impl` trait is
    reached before a name that is an artifact. -/
def allocates : TypeExpr → Bool
  | .primitive _ => false
  | .ref (some lt) _ _ => !isAllocArtifact lt
  | .ref none inner _ => allocates inner
  | .rawPtr inner _ => allocates inner
  | .array inner _ => allocates inner
  | .slice inner => allocates inner
  | .tuple items => allocatesAll items
  | .fnPtr [] ret => allocates ret || answers ret
  | .fnPtr (p :: _) _ => allocates p || answers p
  | .param _ => false
  | .dynTrait path => !isAllocArtifact path
  | .implTrait path => !isAllocArtifact path
  | .appliedPath _ args => allocatesAll args
  | .path _ => false

def allocatesAll : List TypeExpr → Bool
  | [] => false
  | item :: items => allocates item || (answers item && allocatesAll items)

end

/-! ### The single actions -/

section Growing

variable {Rest : Type}

/-- Numbers that were given out stay, and nodes are only added. -/
structure Grown (s t : CaptureIR Rest) : Prop where
  types : ∀ k i, s.typeIndex k = some i → t.typeIndex k = some i
  names : ∀ k i, s.nameIntern.map k = some i → t.nameIntern.map k = some i
  paths : ∀ k i, s.pathIntern.map k = some i → t.pathIntern.map k = some i
  nodes : s.nodes.length ≤ t.nodes.length

def growth (Rest : Type) : Growth (CaptureIR Rest) where
  le := Grown
  refl := fun _ => ⟨fun _ _ h => h, fun _ _ h => h, fun _ _ h => h, Nat.le_refl _⟩
  trans := fun h h' => ⟨fun k i hk => h'.types k i (h.types k i hk),
    fun k i hk => h'.names k i (h.names k i hk), fun k i hk => h'.paths k i (h.paths k i hk),
    Nat.le_trans h.nodes h'.nodes⟩

def nodeCount (ir : CaptureIR Rest) : Nat := ir.nodes.length

theorem nodeCount_mono (s t : CaptureIR Rest) (h : (growth Rest).le s t) :
    nodeCount s ≤ nodeCount t := h.nodes

/-- Interning gives a number to a text that has none, and no other text changes. -/
theorem intern_map (table : Interner) (text : Text) (k : Text) (i : UInt32)
    (h : table.map k = some i) : (table.intern text).1.map k = some i := by
  rw [Interner.intern]
  cases htext : table.map text with
  | some idx => exact h
  | none =>
    have hne : k ≠ text := by
      intro heq
      rw [heq, htext] at h
      cases h
    show (table.map.insert text _) k = some i
    rw [FMap.insert_of_ne _ _ hne]
    exact h

theorem intern_of_map {table : Interner} {text : Text} {i : UInt32}
    (h : table.map text = some i) : table.intern text = (table, i) := by
  rw [Interner.intern, h]

theorem internType_of_index {ir : CaptureIR Rest} {kind : TypeKind} {id : CanonId}
    (h : ir.typeIndex kind = some id) : ir.internType kind = (ir, id) := by
  rw [CanonIR.internType, h]

theorem index_internType (ir : CaptureIR Rest) (kind : TypeKind) :
    (ir.internType kind).1.typeIndex kind = some (ir.internType kind).2 := by
  cases h : ir.typeIndex kind with
  | some id =>
    rw [internType_of_index h]
    exact h
  | none =>
    rw [CanonIR.internType, h]
    exact FMap.insert_self _ _ _

variable {name : Text} (node : CaptureNode Rest)

theorem pushNode_extends : Extends (growth Rest) (pushNode node) := by
  intro s
  refine ⟨fun _ _ h => h, fun _ _ h => h, fun _ _ h => h, ?_⟩
  show s.nodes.length ≤ (s.nodes ++ [_]).length
  rw [List.length_append]
  omega

theorem pushNode_enlarges : Enlarges nodeCount (pushNode node) := by
  intro s
  show s.nodes.length < (s.nodes ++ [_]).length
  rw [List.length_append, List.length_singleton]
  omega

theorem pushNode_behaves : Behaves (growth Rest) true (pushNode node) :=
  ⟨pushNode_extends node, fun _ => ⟨_, rfl⟩⟩

theorem internKind_extends (kind : TypeKind) :
    Extends (growth Rest) (internKind kind : CaptureAction Rest CanonId) := by
  intro s
  show Grown s (s.internType kind).1
  cases h : s.typeIndex kind with
  | some id =>
    rw [internType_of_index h]
    exact (growth Rest).refl s
  | none =>
    rw [CanonIR.internType, h]
    refine ⟨?_, fun _ _ h => h, fun _ _ h => h, ?_⟩
    · intro k i hk
      have hne : k ≠ kind := by
        intro heq
        rw [heq, h] at hk
        cases hk
      show (s.typeIndex.insert kind _) k = some i
      rw [FMap.insert_of_ne _ _ hne]
      exact hk
    · show s.nodes.length ≤ (s.nodes ++ [_]).length
      rw [List.length_append]
      omega

/-- A type that has a number keeps it, in every later state. -/
theorem internKind_settles (kind : TypeKind) :
    Settles (growth Rest) (internKind kind : CaptureAction Rest CanonId) := by
  intro s t hst
  have hmap := hst.types kind _ (index_internType s kind)
  show ((t.internType kind).1, Except.ok (t.internType kind).2) = _
  rw [internType_of_index hmap]
  rfl

theorem internKind_behaves (kind : TypeKind) :
    Behaves (growth Rest) true (internKind kind : CaptureAction Rest CanonId) :=
  ⟨internKind_extends kind, fun _ => ⟨_, rfl⟩⟩

theorem internName_of_artifact (h : isAllocArtifact name = true) :
    (internName name : CaptureAction Rest NameId) = Action.fail (.allocArtifact name) := if_pos h

theorem internName_of_name (h : isAllocArtifact name = false) (ir : CaptureIR Rest) :
    internName name ir = ({ ir with nameIntern := (ir.nameIntern.intern name).1 },
      .ok (ir.nameIntern.intern name).2) := by
  rw [internName, h]
  rfl

theorem internName_extends (name : Text) :
    Extends (growth Rest) (internName name : CaptureAction Rest NameId) := by
  cases h : isAllocArtifact name with
  | true =>
    rw [internName_of_artifact h]
    exact extends_fail _
  | false =>
    intro s
    rw [internName_of_name h]
    exact ⟨fun _ _ h => h, intern_map s.nameIntern name, fun _ _ h => h, Nat.le_refl _⟩

theorem internName_settles (name : Text) :
    Settles (growth Rest) (internName name : CaptureAction Rest NameId) := by
  cases h : isAllocArtifact name with
  | true =>
    rw [internName_of_artifact h]
    exact settles_fail _
  | false =>
    intro s t hst
    rw [internName_of_name h] at hst ⊢
    have hmap := hst.names name _ (intern_twice s.nameIntern name).1
    rw [internName_of_name h, intern_of_map hmap]

theorem internName_behaves (name : Text) :
    Behaves (growth Rest) (!isAllocArtifact name)
      (internName name : CaptureAction Rest NameId) := by
  refine ⟨internName_extends name, fun s => ?_⟩
  rw [internName]
  cases h : isAllocArtifact name with
  | true => exact ⟨_, rfl⟩
  | false => exact ⟨_, rfl⟩

theorem internName_fails (h : (!isAllocArtifact name) = false) :
    Answers false (internName name : CaptureAction Rest NameId) := by
  have hanswers := (@internName_behaves Rest name).answers
  rwa [h] at hanswers

theorem internPathId_extends (raw : Text) :
    Extends (growth Rest) (internPathId raw : CaptureAction Rest PathId) := by
  intro s
  rw [internPathId, internPath_eq]
  exact ⟨fun _ _ h => h, fun _ _ h => h, intern_map s.pathIntern _, Nat.le_refl _⟩

theorem internPathId_settles (raw : Text) :
    Settles (growth Rest) (internPathId raw : CaptureAction Rest PathId) := by
  intro s t hst
  rw [internPathId, internPath_eq] at hst
  have hmap := hst.paths _ _ (intern_twice s.pathIntern (storedText raw)).1
  rw [internPathId, internPathId, internPath_eq, internPath_eq, intern_of_map hmap]

theorem internPathId_behaves (raw : Text) :
    Behaves (growth Rest) true (internPathId raw : CaptureAction Rest PathId) := by
  refine ⟨internPathId_extends raw, fun s => ⟨(s.pathIntern.intern (storedText raw)).2, ?_⟩⟩
  rw [internPathId, internPath_eq]
  rfl

/-! ### The parts of an expression -/

/-- The name of a parameter has no character that the artifacts are known by. -/
theorem argName_not_artifact (i : Nat) : isAllocArtifact (argName i) = false := by
  have hmem : ∀ c ∈ argName i, c ∈ "__fnptr_arg".toList ∨ c.isDigit = true := by
    intro c hc
    rcases List.mem_append.mp hc with hc | hc
    · exact .inl hc
    · exact .inr (Text.isDigit_of_mem_ofNat hc)
  have hnot : ∀ c, c ∉ "__fnptr_arg".toList → c.isDigit = false → c ∉ argName i := by
    intro c hword hdigit hc
    rcases hmem c hc with hc | hc
    · exact hword hc
    · rw [hdigit] at hc
      cases hc
  have hcontains : ∀ p : Text, (∃ c ∈ p, c ∉ argName i) → Text.contains p (argName i) = false := by
    intro p hp
    obtain ⟨c, hc, hmiss⟩ := hp
    apply Bool.eq_false_iff.mpr
    intro h
    exact hmiss (((Text.contains_iff p _).mp h).subset hc)
  have hbrace : '\x7b' ∉ argName i := hnot _ (by decide) (by decide)
  have hsquare : '[' ∉ argName i := hnot _ (by decide) (by decide)
  have hzero : '\x00' ∉ argName i := hnot _ (by decide) (by decide)
  rw [isAllocArtifact, hcontains "\x7b\x7b" ⟨_, by decide, hbrace⟩,
    hcontains "\x7balloc" ⟨_, List.mem_cons_self, hbrace⟩,
    hcontains "promoted[" ⟨'[', by decide, hsquare⟩, decide_eq_false hzero]
  rfl

theorem internLifetime_behaves (lifetime : Option Text) :
    Behaves (growth Rest) (lifetime.all fun lt => !isAllocArtifact lt)
      (internLifetime lifetime : CaptureAction Rest (Option CanonId)) := by
  cases lifetime with
  | none => exact behaves_pure _
  | some lt =>
    exact behaves_bind_of_answers (internName_behaves lt) fun nameId =>
      behaves_of_answers_bind (pushNode_behaves _) fun id => behaves_pure (some id)

/-! ### Whole expressions -/

theorem isAllocatorArg_eq_true {arg : TypeExpr} (h : isAllocatorArg arg = true) :
    ∃ p, arg = .path p := by
  cases arg with
  | path p => exact ⟨p, rfl⟩
  | _ => cases h

theorem argName_behaves (i : Nat) :
    Behaves (growth Rest) true (internName (argName i) : CaptureAction Rest NameId) := by
  have h := @internName_behaves Rest (argName i)
  rwa [argName_not_artifact] at h

mutual

theorem internTyExpr_behaves : ∀ ty : TypeExpr,
    Behaves (growth Rest) (answers ty) (internTyExpr ty : CaptureAction Rest CanonId)
  | .primitive _ => internKind_behaves _
  | .ref lifetime inner _ =>
    behaves_bind (internLifetime_behaves lifetime) fun _ =>
      behaves_bind_of_answers (internTyExpr_behaves inner) fun _ => internKind_behaves _
  | .rawPtr inner _ =>
    behaves_bind_of_answers (internTyExpr_behaves inner) fun _ => internKind_behaves _
  | .array inner (some _) =>
    behaves_bind_of_answers (internTyExpr_behaves inner) fun _ => internKind_behaves _
  | .array inner none =>
    behaves_bind_of_answers (internTyExpr_behaves inner) fun _ => internKind_behaves _
  | .slice inner =>
    behaves_bind_of_answers (internTyExpr_behaves inner) fun _ => internKind_behaves _
  | .tuple items =>
    behaves_bind_of_answers (internAll_behaves items) fun _ => internKind_behaves _
  | .fnPtr params ret =>
    behaves_bind (internParams_behaves 0 params) fun _ =>
      behaves_bind_of_answers (internTyExpr_behaves ret) fun _ =>
        behaves_bind_of_answers (pushNode_behaves _) fun _ => internKind_behaves _
  | .param name =>
    behaves_bind_of_answers (internName_behaves name) fun _ => internKind_behaves _
  | .dynTrait path =>
    behaves_bind_of_answers (internName_behaves path) fun _ =>
      behaves_bind_of_answers (pushNode_behaves _) fun _ => internKind_behaves _
  | .implTrait path =>
    behaves_bind_of_answers (internName_behaves path) fun _ =>
      behaves_bind_of_answers (pushNode_behaves _) fun _ => internKind_behaves _
  | .appliedPath _ args =>
    behaves_of_answers_bind (internPathId_behaves _) fun _ =>
      behaves_of_answers_bind (internKind_behaves _) fun _ =>
        behaves_bind_of_answers (internArgs_behaves args) fun _ => internKind_behaves _
  | .path _ =>
    behaves_of_answers_bind (internPathId_behaves _) fun _ => internKind_behaves _

theorem internAll_behaves : ∀ items : List TypeExpr,
    Behaves (growth Rest) (answersAll items) (internAll items : CaptureAction Rest (List CanonId))
  | [] => behaves_pure _
  | item :: items =>
    behaves_bind (internTyExpr_behaves item) fun _ =>
      behaves_bind_of_answers (internAll_behaves items) fun _ => behaves_pure _

theorem internParams_behaves : ∀ (i : Nat) (params : List TypeExpr),
    Behaves (growth Rest) (answersAll params)
      (internParams i params : CaptureAction Rest (List CanonId))
  | _, [] => behaves_pure _
  | i, p :: params =>
    behaves_of_answers_bind (argName_behaves i) fun _ =>
      behaves_bind (internTyExpr_behaves p) fun _ =>
        behaves_of_answers_bind (pushNode_behaves _) fun _ =>
          behaves_bind_of_answers (internParams_behaves (i + 1) params) fun _ => behaves_pure _

theorem internArgs_behaves : ∀ args : List TypeExpr,
    Behaves (growth Rest) (answersAll args) (internArgs args : CaptureAction Rest (List CanonId))
  | [] => behaves_pure _
  | arg :: args => by
    rw [internArgs]
    by_cases h : isAllocatorArg arg = true
    · rw [if_pos h]
      obtain ⟨p, rfl⟩ := isAllocatorArg_eq_true h
      exact internArgs_behaves args
    · rw [if_neg h]
      exact behaves_bind (internTyExpr_behaves arg) fun _ =>
        behaves_bind_of_answers (internArgs_behaves args) fun _ => behaves_pure _

end

theorem internTyExpr_fails {ty : TypeExpr} (h : answers ty = false) :
    Answers false (internTyExpr ty : CaptureAction Rest CanonId) := by
  have hanswers := (@internTyExpr_behaves Rest ty).answers
  rwa [h] at hanswers

mutual

/-- An expression that brings no node of its own settles. -/
theorem internTyExpr_settles : ∀ ty : TypeExpr, allocates ty = false →
    Settles (growth Rest) (internTyExpr ty : CaptureAction Rest CanonId)
  | .primitive _, _ => internKind_settles _
  | .ref none inner _, h =>
    settles_bind (settles_pure none) (fun _ =>
      settles_bind (internTyExpr_settles inner h) (fun _ => internKind_settles _)
        fun _ => internKind_extends _) fun _ =>
      extends_bind (internTyExpr_behaves inner).grows fun _ => internKind_extends _
  | .ref (some lt) inner _, h => by
    -- The lifetime is an artifact: nothing behind it is done.
    have hname : (!isAllocArtifact lt) = false := h
    have hlifetime := (@internLifetime_behaves Rest (some lt)).answers
    rw [Option.all_some, hname] at hlifetime
    exact settles_bind_of_fails
      (settles_bind_of_fails (internName_settles lt) (internName_fails hname))
      hlifetime
  | .rawPtr inner _, h =>
    settles_bind (internTyExpr_settles inner h) (fun _ => internKind_settles _)
      fun _ => internKind_extends _
  | .array inner (some _), h =>
    settles_bind (internTyExpr_settles inner h) (fun _ => internKind_settles _)
      fun _ => internKind_extends _
  | .array inner none, h =>
    settles_bind (internTyExpr_settles inner h) (fun _ => internKind_settles _)
      fun _ => internKind_extends _
  | .slice inner, h =>
    settles_bind (internTyExpr_settles inner h) (fun _ => internKind_settles _)
      fun _ => internKind_extends _
  | .tuple items, h =>
    settles_bind (internAll_settles items h) (fun _ => internKind_settles _)
      fun _ => internKind_extends _
  | .fnPtr [] ret, h => by
    obtain ⟨hret, hfail⟩ := Bool.or_eq_false_iff.mp h
    exact settles_bind (settles_pure []) (fun _ =>
      settles_bind_of_fails (internTyExpr_settles ret hret) (internTyExpr_fails hfail)) fun _ =>
        extends_bind (internTyExpr_behaves ret).grows fun _ =>
          extends_bind (pushNode_extends _) fun _ => internKind_extends _
  | .fnPtr (p :: params) ret, h => by
    -- The first parameter fails before its node is made.
    obtain ⟨hp, hfail⟩ := Bool.or_eq_false_iff.mp h
    have hparams := (@internParams_behaves Rest 0 (p :: params)).answers
    rw [answersAll, hfail, Bool.false_and] at hparams
    refine settles_bind_of_fails ?_ hparams
    exact settles_bind (internName_settles _) (fun _ =>
      settles_bind_of_fails (internTyExpr_settles p hp) (internTyExpr_fails hfail)) fun _ =>
        extends_bind (internTyExpr_behaves p).grows fun _ =>
          extends_bind (pushNode_extends _) fun _ =>
            extends_bind (internParams_behaves 1 params).grows fun _ => extends_pure _
  | .param name, _ =>
    settles_bind (internName_settles name) (fun _ => internKind_settles _)
      fun _ => internKind_extends _
  | .dynTrait path, h => settles_bind_of_fails (internName_settles path) (internName_fails h)
  | .implTrait path, h => settles_bind_of_fails (internName_settles path) (internName_fails h)
  | .appliedPath _ args, h =>
    settles_bind (internPathId_settles _) (fun _ =>
      settles_bind (internKind_settles _) (fun _ =>
        settles_bind (internArgs_settles args h) (fun _ => internKind_settles _)
          fun _ => internKind_extends _) fun _ =>
        extends_bind (internArgs_behaves args).grows fun _ => internKind_extends _) fun _ =>
      extends_bind (internKind_extends _) fun _ =>
        extends_bind (internArgs_behaves args).grows fun _ => internKind_extends _
  | .path _, _ =>
    settles_bind (internPathId_settles _) (fun _ => internKind_settles _)
      fun _ => internKind_extends _

theorem internAll_settles : ∀ items : List TypeExpr, allocatesAll items = false →
    Settles (growth Rest) (internAll items : CaptureAction Rest (List CanonId))
  | [], _ => settles_pure _
  | item :: items, h => by
    obtain ⟨hitem, hrest⟩ := Bool.or_eq_false_iff.mp h
    rcases Bool.and_eq_false_iff.mp hrest with hfail | hitems
    · exact settles_bind_of_fails (internTyExpr_settles item hitem) (internTyExpr_fails hfail)
    · exact settles_bind (internTyExpr_settles item hitem) (fun _ =>
        settles_bind (internAll_settles items hitems) (fun _ => settles_pure _)
          fun _ => extends_pure _) fun _ =>
        extends_bind (internAll_behaves items).grows fun _ => extends_pure _

theorem internArgs_settles : ∀ args : List TypeExpr, allocatesAll args = false →
    Settles (growth Rest) (internArgs args : CaptureAction Rest (List CanonId))
  | [], _ => settles_pure _
  | arg :: args, h => by
    obtain ⟨harg, hrest⟩ := Bool.or_eq_false_iff.mp h
    rw [internArgs]
    by_cases hskip : isAllocatorArg arg = true
    · rw [if_pos hskip]
      obtain ⟨p, rfl⟩ := isAllocatorArg_eq_true hskip
      exact internArgs_settles args hrest
    · rw [if_neg hskip]
      rcases Bool.and_eq_false_iff.mp hrest with hfail | hargs
      · exact settles_bind_of_fails (internTyExpr_settles arg harg) (internTyExpr_fails hfail)
      · exact settles_bind (internTyExpr_settles arg harg) (fun _ =>
          settles_bind (internArgs_settles args hargs) (fun _ => settles_pure _)
            fun _ => extends_pure _) fun _ =>
          extends_bind (internArgs_behaves args).grows fun _ => extends_pure _

end

theorem internName_gives (h : (!isAllocArtifact name) = true) :
    Answers true (internName name : CaptureAction Rest NameId) := by
  have hanswers := (@internName_behaves Rest name).answers
  rwa [h] at hanswers

theorem internTyExpr_gives {ty : TypeExpr} (h : answers ty = true) :
    Answers true (internTyExpr ty : CaptureAction Rest CanonId) := by
  have hanswers := (@internTyExpr_behaves Rest ty).answers
  rwa [h] at hanswers

/-- A node that is made with the name of a trait. -/
theorem trait_enlarges (h : (!isAllocArtifact name) = true) (node : NameId → CaptureNode Rest)
    (kind : CanonId → TypeKind) :
    Enlarges nodeCount (do
      let nameId ← internName name
      let id ← pushNode (node nameId)
      internKind (kind id) : CaptureAction Rest CanonId) :=
  enlarges_bind_right nodeCount_mono (internName_extends name) (internName_gives h) fun _ =>
    enlarges_bind_left nodeCount_mono (pushNode_enlarges _) fun _ => internKind_extends _

mutual

/-- Every other expression adds a node each time it is interned. -/
theorem internTyExpr_enlarges : ∀ ty : TypeExpr, allocates ty = true →
    Enlarges nodeCount (internTyExpr ty : CaptureAction Rest CanonId)
  | .ref (some lt) inner _, h => by
    have hlifetime : Enlarges nodeCount
        (internLifetime (some lt) : CaptureAction Rest (Option CanonId)) :=
      enlarges_bind_right nodeCount_mono (internName_extends lt) (internName_gives h) fun _ =>
        enlarges_bind_left nodeCount_mono (pushNode_enlarges _) fun _ => extends_pure _
    exact enlarges_bind_left nodeCount_mono hlifetime fun _ =>
      extends_bind (internTyExpr_behaves inner).grows fun _ => internKind_extends _
  | .ref none inner _, h =>
    enlarges_bind_right nodeCount_mono (extends_pure none) (fun _ => ⟨_, rfl⟩) fun _ =>
      enlarges_bind_left nodeCount_mono (internTyExpr_enlarges inner h) fun _ =>
        internKind_extends _
  | .rawPtr inner _, h =>
    enlarges_bind_left nodeCount_mono (internTyExpr_enlarges inner h) fun _ =>
      internKind_extends _
  | .array inner (some _), h =>
    enlarges_bind_left nodeCount_mono (internTyExpr_enlarges inner h) fun _ =>
      internKind_extends _
  | .array inner none, h =>
    enlarges_bind_left nodeCount_mono (internTyExpr_enlarges inner h) fun _ =>
      internKind_extends _
  | .slice inner, h =>
    enlarges_bind_left nodeCount_mono (internTyExpr_enlarges inner h) fun _ =>
      internKind_extends _
  | .tuple items, h =>
    enlarges_bind_left nodeCount_mono (internAll_enlarges items h) fun _ =>
      internKind_extends _
  | .fnPtr [] ret, h => by
    refine enlarges_bind_right nodeCount_mono (extends_pure []) (fun _ => ⟨_, rfl⟩)
      fun params => ?_
    rcases Bool.or_eq_true_iff.mp h with hret | hret
    · exact enlarges_bind_left nodeCount_mono (internTyExpr_enlarges ret hret) fun _ =>
        extends_bind (pushNode_extends _) fun _ => internKind_extends _
    -- The signature is a new node.
    · exact enlarges_bind_right nodeCount_mono (internTyExpr_behaves ret).grows
        (internTyExpr_gives hret) fun _ =>
          enlarges_bind_left nodeCount_mono (pushNode_enlarges _) fun _ => internKind_extends _
  | .fnPtr (p :: params) ret, h => by
    have hparams : Enlarges nodeCount
        (internParams 0 (p :: params) : CaptureAction Rest (List CanonId)) := by
      refine enlarges_bind_right nodeCount_mono (internName_extends _) (argName_behaves 0).answers
        fun _ => ?_
      have hrest : ∀ id : CanonId, Extends (growth Rest) (do
          let ids ← internParams 1 params
          pure (id :: ids) : CaptureAction Rest (List CanonId)) :=
        fun _ => extends_bind (internParams_behaves 1 params).grows fun _ => extends_pure _
      rcases Bool.or_eq_true_iff.mp h with hp | hp
      · exact enlarges_bind_left nodeCount_mono (internTyExpr_enlarges p hp) fun _ =>
          extends_bind (pushNode_extends _) hrest
      · exact enlarges_bind_right nodeCount_mono (internTyExpr_behaves p).grows
          (internTyExpr_gives hp) fun _ =>
            enlarges_bind_left nodeCount_mono (pushNode_enlarges _) hrest
    exact enlarges_bind_left nodeCount_mono hparams fun _ =>
      extends_bind (internTyExpr_behaves ret).grows fun _ =>
        extends_bind (pushNode_extends _) fun _ => internKind_extends _
  | .dynTrait _, h => trait_enlarges h (fun nameId => .typeRef nameId) fun id => .dynTrait id
  | .implTrait _, h => trait_enlarges h (fun nameId => .typeRef nameId) fun id => .implTrait id
  | .appliedPath _ args, h =>
    enlarges_bind_right nodeCount_mono (internPathId_extends _) (internPathId_behaves _).answers
      fun _ => enlarges_bind_right nodeCount_mono (internKind_extends _)
        (internKind_behaves _).answers fun _ =>
        enlarges_bind_left nodeCount_mono (internArgs_enlarges args h) fun _ =>
          internKind_extends _

theorem internAll_enlarges : ∀ items : List TypeExpr, allocatesAll items = true →
    Enlarges nodeCount (internAll items : CaptureAction Rest (List CanonId))
  | item :: items, h => by
    rcases Bool.or_eq_true_iff.mp h with hitem | hrest
    · exact enlarges_bind_left nodeCount_mono (internTyExpr_enlarges item hitem) fun _ =>
        extends_bind (internAll_behaves items).grows fun _ => extends_pure _
    · obtain ⟨hitem, hitems⟩ := (Bool.and_eq_true _ _).mp hrest
      exact enlarges_bind_right nodeCount_mono (internTyExpr_behaves item).grows
        (internTyExpr_gives hitem) fun _ =>
          enlarges_bind_left nodeCount_mono (internAll_enlarges items hitems) fun _ =>
            extends_pure _

theorem internArgs_enlarges : ∀ args : List TypeExpr, allocatesAll args = true →
    Enlarges nodeCount (internArgs args : CaptureAction Rest (List CanonId))
  | arg :: args, h => by
    rw [internArgs]
    by_cases hskip : isAllocatorArg arg = true
    · rw [if_pos hskip]
      obtain ⟨p, rfl⟩ := isAllocatorArg_eq_true hskip
      exact internArgs_enlarges args h
    · rw [if_neg hskip]
      rcases Bool.or_eq_true_iff.mp h with harg | hrest
      · exact enlarges_bind_left nodeCount_mono (internTyExpr_enlarges arg harg) fun _ =>
          extends_bind (internArgs_behaves args).grows fun _ => extends_pure _
      · obtain ⟨harg, hargs⟩ := (Bool.and_eq_true _ _).mp hrest
        exact enlarges_bind_right nodeCount_mono (internTyExpr_behaves arg).grows
          (internTyExpr_gives harg) fun _ =>
            enlarges_bind_left nodeCount_mono (internArgs_enlarges args hargs) fun _ =>
              extends_pure _

end

end Growing

/-! ### Interning a type twice -/

/-- In every state, interning an expression again, at once or later, gives the same type
    and adds no node exactly where the expression allocates no node of its own. -/
theorem intern_ty_expr_structural_iff {Rest : Type} (ir : CaptureIR Rest) (ty : TypeExpr) :
    (∀ later : CaptureIR Rest, Grown (internTyExpr ty ir).1 later →
      (internTyExpr ty later).2 = (internTyExpr ty ir).2 ∧
        (internTyExpr ty later).1.nodes = later.nodes) ↔ allocates ty = false := by
  constructor
  · intro h
    cases hallocates : allocates ty with
    | false => rfl
    | true =>
      have hlarger := internTyExpr_enlarges ty hallocates (internTyExpr ty ir).1
      have hsame := (h _ ((growth Rest).refl _)).2
      rw [nodeCount, nodeCount, hsame] at hlarger
      omega
  · intro h later hlater
    have hsettled := internTyExpr_settles ty h ir later hlater
    rw [hsettled]
    exact ⟨rfl, rfl⟩

/-- Two trait objects of one trait are two types. -/
theorem trait_object_interned_twice :
    (internTyExpr (.dynTrait "Display") (CanonIR.new : CaptureIR Empty)).2 = .ok 1 ∧
      (internTyExpr (.dynTrait "Display")
        (internTyExpr (.dynTrait "Display") (CanonIR.new : CaptureIR Empty)).1).2 = .ok 3 := by
  decide

end Canon.Capture
