import Canon.Lib.Text
import Canon.Lib.Maps

/-! # The canonical representation of a program

    `CanonIR` of `ir.rs` with the `Interner` of `intern.rs`: the arena of nodes and the
    tables of names, paths and bodies.  The reverse maps are not part of what is
    serialised; `restore` builds them again from the arena and the tables.

    Identifiers are `u32`: a length that has more bits is cut off.
-/

namespace Canon.Ir

/-- The number of a node. -/
abbrev CanonId := UInt32
/-- The number of a name or of a body. -/
abbrev NameId := UInt32
/-- The number of a path. -/
abbrev PathId := UInt32

/-! ### Nodes -/

inductive PrimTy where
  | bool | char | str
  | u8 | u16 | u32 | u64 | u128 | usize
  | i8 | i16 | i32 | i64 | i128 | isize
  | f32 | f64
  | unit | never
deriving DecidableEq, Repr

/-- A type whose parts are nodes of the arena. -/
inductive TypeKind where
  | primitive (ty : PrimTy)
  | adt (id : CanonId)
  | ref (lifetime : Option CanonId) (inner : CanonId) (mutable : Bool)
  | rawPtr (inner : CanonId) (mutable : Bool)
  | array (inner : CanonId) (len : UInt64)
  | slice (id : CanonId)
  | tuple (ids : List CanonId)
  | fnPtr (id : CanonId)
  | implTrait (id : CanonId)
  | dynTrait (id : CanonId)
  | param (name : NameId)
  | applied (base : CanonId) (args : List CanonId)
  | external (path : PathId)
  | unresolved (path : PathId)
  | typeRef (nameId : NameId)
deriving DecidableEq, Repr

/-- A type, or a node of one of the other kinds. -/
inductive CanonNodeKind (Other : Type) where
  | type (kind : TypeKind)
  | other (node : Other)

def CanonNodeKind.typeKind? {Other : Type} : CanonNodeKind Other → Option TypeKind
  | .type kind => some kind
  | .other _ => none

/-- A node under its number. -/
structure CanonNode (Other : Type) where
  id : CanonId
  kind : CanonNodeKind Other

/-! ### Tables of texts -/

/-- Texts by number, and back. -/
structure Interner where
  vec : List Text
  /-- Not serialised. -/
  map : FMap Text UInt32

namespace Interner

def new : Interner where
  vec := []
  map := FMap.empty

/-- A text that is there keeps its number; any other takes the next one. -/
def intern (t : Interner) (s : Text) : Interner × UInt32 :=
  match t.map s with
  | some idx => (t, idx)
  | none =>
    let idx := UInt32.ofNat t.vec.length
    (⟨t.vec ++ [s], t.map.insert s idx⟩, idx)

/-- Nothing for an index that is out of range, where the code panics. -/
def lookup (t : Interner) (idx : UInt32) : Option Text := t.vec[idx.toNat]?

/-- The map is built again from the texts. -/
def restoreIndex (t : Interner) : Interner where
  vec := t.vec
  map := FMap.empty.insertAll (t.vec.zipIdx.map fun e => (e.1, UInt32.ofNat e.2))

/-- What is read back of a serialised table. -/
def deserialized (t : Interner) : Interner where
  vec := t.vec
  map := FMap.empty

end Interner

/-! ### Paths -/

/-- The text a path is interned under. -/
def canonicalPathForm (s : Text) : Except Text Text :=
  let trimmed := Text.trim s
  let normalized := (Text.stripPrefix? "::" trimmed).getD trimmed
  let invalid := normalized = [] ∨ '\x7b' ∈ normalized ∨ '\x7d' ∈ normalized ∨
    Text.contains "=>" normalized ∨ '!' ∈ normalized ∨
    Text.startsWith ":" normalized ∨ Text.endsWith ":" normalized ∨
    (Text.splitPath normalized).any fun seg => seg = ['_'] ∨ Text.startsWith "__" seg
  if invalid then .error ("invalid path for path_intern: ".toList ++ s) else .ok normalized

/-! ### The representation -/

/-- The nodes, and what they refer to. -/
structure CanonIR (Other : Type) where
  nodes : List (CanonNode Other)
  nameIntern : Interner
  pathIntern : Interner
  bodyIntern : Interner
  /-- Not serialised. -/
  typeIndex : FMap TypeKind CanonId

namespace CanonIR

variable {Other : Type}
variable (ir : CanonIR Other)

def new : CanonIR Other where
  nodes := []
  nameIntern := .new
  pathIntern := .new
  bodyIntern := .new
  typeIndex := FMap.empty

/-- A node takes the length of the arena as its number. -/
def pushNode (kind : CanonNodeKind Other) : CanonIR Other × CanonId :=
  let id := UInt32.ofNat ir.nodes.length
  ({ ir with nodes := ir.nodes ++ [⟨id, kind⟩] }, id)

def internName (s : Text) : CanonIR Other × NameId :=
  let (table, id) := ir.nameIntern.intern s
  ({ ir with nameIntern := table }, id)

/-- A path is interned in its canonical form, or refused. -/
def internPath (s : Text) : CanonIR Other × Except Text PathId :=
  match canonicalPathForm s with
  | .error e => (ir, .error e)
  | .ok normalized =>
    let (table, id) := ir.pathIntern.intern normalized
    ({ ir with pathIntern := table }, .ok id)

def internBody (s : Text) : CanonIR Other × NameId :=
  let (table, id) := ir.bodyIntern.intern s
  ({ ir with bodyIntern := table }, id)

def lookupName (id : NameId) : Option Text := ir.nameIntern.lookup id

def lookupPath (id : PathId) : Option Text := ir.pathIntern.lookup id

def lookupBody (id : NameId) : Option Text := ir.bodyIntern.lookup id

/-- A type that has a node keeps it. -/
def internType (kind : TypeKind) : CanonIR Other × CanonId :=
  match ir.typeIndex kind with
  | some existing => (ir, existing)
  | none =>
    let (ir, id) := ir.pushNode (.type kind)
    ({ ir with typeIndex := ir.typeIndex.insert kind id }, id)

/-- One node of `restore_type_index`: the first node of a type counts. -/
def indexNode (index : FMap TypeKind CanonId) (node : CanonNode Other) : FMap TypeKind CanonId :=
  match node.kind with
  | .type kind => if (index kind).isSome then index else index.insert kind node.id
  | .other _ => index

/-- The index is built again from the nodes. -/
def restoreTypeIndex : CanonIR Other :=
  { ir with typeIndex := ir.nodes.foldl indexNode FMap.empty }

def restore : CanonIR Other :=
  restoreTypeIndex { ir with
    nameIntern := ir.nameIntern.restoreIndex
    pathIntern := ir.pathIntern.restoreIndex
    bodyIntern := ir.bodyIntern.restoreIndex }

/-- What is read back of a serialised representation. -/
def deserialized : CanonIR Other where
  nodes := ir.nodes
  nameIntern := ir.nameIntern.deserialized
  pathIntern := ir.pathIntern.deserialized
  bodyIntern := ir.bodyIntern.deserialized
  typeIndex := FMap.empty

end CanonIR

end Canon.Ir
