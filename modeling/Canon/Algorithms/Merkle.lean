import Mathlib.Algebra.GroupWithZero.Nat
import Mathlib.Data.List.Basic
import Mathlib.Data.Nat.Log

/-! # The Merkle tree

    `cryptography/merkle_tree.rs`.  The nodes stand in one array: the root at `1`, the
    children of `j` at `2 * j` and `2 * j + 1`, the leaves from `leafCount` on.  A proof is the
    list of the siblings on the way from a leaf to the root.

    The hash function is a parameter.

    * `build`, `proof`, `verify`: the functions of the source,
    * `IsTree`, `build_spec`: what the array holds,
    * `proofLoop_spec`: the proof of a node leads to the root,
    * `node_of_verifyLoop`: a proof of the right length that leads to the root starts at the
      node, where no two of the hashed strings collide.
-/

namespace Canon.Algorithms.Merkle

/-! ### Model -/

abbrev Bytes := List UInt8

abbrev Digest := {bytes : Bytes // bytes.length = 32}

structure MerkleTree where
  nodes : List Digest
  leafCount : Nat
deriving DecidableEq

def zeroDigest : Digest := ⟨List.replicate 32 0, rfl⟩

def isPowerOfTwo (n : Nat) : Bool := n == 2 ^ Nat.log2 n

section Model

variable (digest : Bytes → Digest)

/-- The leaves from position `p` on. -/
def hashLeaves : List Bytes → Nat → List Digest → List Digest
  | [], _, nodes => nodes
  | block :: blocks, p, nodes => hashLeaves blocks (p + 1) (nodes.set p (digest block))

/-- The parents `j`, `j - 1`, …, `1`. -/
def buildParents : Nat → List Digest → Option (List Digest)
  | 0, nodes => some nodes
  | j + 1, nodes => do
    let left ← nodes[2 * (j + 1)]?
    let right ← nodes[2 * (j + 1) + 1]?
    buildParents j (nodes.set (j + 1) (digest (left.1 ++ right.1)))

/-- Nothing where the assertion about the number of the blocks fails. -/
def build (blocks : List Bytes) : Option MerkleTree :=
  let l := blocks.length
  if isPowerOfTwo l then do
    let nodes ← buildParents digest (l - 1)
      (hashLeaves digest blocks l (List.replicate (2 * l) zeroDigest))
    some ⟨nodes, l⟩
  else none

def MerkleTree.root (tree : MerkleTree) : Option Digest := tree.nodes[1]?

def siblingOf (i : Nat) : Nat := if i % 2 = 0 then i + 1 else i - 1

/-- Nothing for an index out of bounds, and when the fuel is spent. -/
def proofLoop (nodes : List Digest) : Nat → Nat → Option (List Digest)
  | 0, _ => none
  | fuel + 1, i =>
    if 1 < i then do
      let node ← nodes[siblingOf i]?
      let path ← proofLoop nodes fuel (i / 2)
      some (node :: path)
    else some []

def MerkleTree.proof (tree : MerkleTree) (i : Nat) : Option (List Digest) :=
  proofLoop tree.nodes (i + tree.leafCount + 1) (i + tree.leafCount)

/-- What is hashed for the parent of a node and its sibling. -/
def joined (index : Nat) (current sibling : Digest) : Bytes :=
  if index % 2 = 0 then current.1 ++ sibling.1 else sibling.1 ++ current.1

def verifyLoop : Nat → Digest → List Digest → Digest
  | _, current, [] => current
  | index, current, sibling :: proof =>
    verifyLoop (index / 2) (digest (joined index current sibling)) proof

def verify (leafData : Bytes) (index leafCount : Nat) (proof : List Digest) (root : Digest) :
    Bool :=
  verifyLoop digest (index + leafCount) (digest leafData) proof == root

/-! ### What is hashed -/

/-- What is hashed for the parent `j`. -/
def childrenOf (nodes : List Digest) (j : Nat) : Option Bytes := do
  let left ← nodes[2 * j]?
  let right ← nodes[2 * j + 1]?
  some (left.1 ++ right.1)

/-- What is hashed for the tree. -/
def builtFrom (tree : MerkleTree) (blocks : List Bytes) : List Bytes :=
  blocks ++ (List.range' 1 (tree.leafCount - 1)).filterMap (childrenOf tree.nodes)

def loopHashes : Nat → Digest → List Digest → List Bytes
  | _, _, [] => []
  | index, current, sibling :: proof =>
    joined index current sibling ::
      loopHashes (index / 2) (digest (joined index current sibling)) proof

/-- What is hashed for the check of a proof. -/
def verifiedFrom (leafData : Bytes) (index leafCount : Nat) (proof : List Digest) : List Bytes :=
  leafData :: loopHashes digest (index + leafCount) (digest leafData) proof

/-- No two of the strings have one digest. -/
def NoCollision (hashed : List Bytes) : Prop :=
  ∀ x ∈ hashed, ∀ y ∈ hashed, digest x = digest y → x = y

instance (hashed : List Bytes) : Decidable (NoCollision digest hashed) :=
  inferInstanceAs (Decidable (∀ x ∈ hashed, ∀ y ∈ hashed, digest x = digest y → x = y))

/-! ### What the array holds -/

/-- The node `j` is the digest of its children. -/
def IsParent (nodes : List Digest) (j : Nat) : Prop :=
  ∃ left right, nodes[2 * j]? = some left ∧ nodes[2 * j + 1]? = some right ∧
    nodes[j]? = some (digest (left.1 ++ right.1))

structure IsTree (blocks : List Bytes) (tree : MerkleTree) : Prop where
  leafCount : tree.leafCount = blocks.length
  length : tree.nodes.length = 2 * blocks.length
  leaf : ∀ i block, blocks[i]? = some block →
    tree.nodes[blocks.length + i]? = some (digest block)
  parent : ∀ j, 1 ≤ j → j < blocks.length → IsParent digest tree.nodes j

end Model

variable {digest : Bytes → Digest}

theorem isPowerOfTwo_pow (k : Nat) : isPowerOfTwo (2 ^ k) = true := by
  unfold isPowerOfTwo
  rw [Nat.log2_two_pow]
  exact beq_self_eq_true _

theorem length_hashLeaves (digest : Bytes → Digest) (blocks : List Bytes) (p : Nat)
    (nodes : List Digest) :
    (hashLeaves digest blocks p nodes).length = nodes.length := by
  induction blocks generalizing p nodes with
  | nil => rfl
  | cons block blocks ih => rw [hashLeaves, ih, List.length_set]

theorem hashLeaves_below (blocks : List Bytes) {p k : Nat} (hk : k < p) (nodes : List Digest) :
    (hashLeaves digest blocks p nodes)[k]? = nodes[k]? := by
  induction blocks generalizing p nodes with
  | nil => rfl
  | cons block blocks ih =>
    rw [hashLeaves, ih (show k < p + 1 by omega), List.getElem?_set_ne (by omega)]

theorem hashLeaves_leaf {blocks : List Bytes} {p i : Nat} {block : Bytes} {nodes : List Digest}
    (hblock : blocks[i]? = some block) (hroom : p + blocks.length ≤ nodes.length) :
    (hashLeaves digest blocks p nodes)[p + i]? = some (digest block) := by
  induction blocks generalizing p i nodes with
  | nil => cases hblock
  | cons first blocks ih =>
    rw [List.length_cons] at hroom
    rw [hashLeaves]
    cases i with
    | zero =>
      have hlt : p < nodes.length := by omega
      show (hashLeaves digest blocks (p + 1) (nodes.set p (digest first)))[p]? = _
      rw [hashLeaves_below blocks (by omega), List.getElem?_set_self hlt]
      exact congrArg (fun b => some (digest b)) (Option.some.inj hblock)
    | succ i =>
      have hrest : p + 1 + blocks.length ≤ (nodes.set p (digest first)).length := by
        rw [List.length_set]
        omega
      rw [show p + (i + 1) = p + 1 + i by omega]
      exact ih hblock hrest

/-- The loop over the parents writes `1`, …, `j` and reads only above what it has not written. -/
theorem buildParents_spec (digest : Bytes → Digest) (j : Nat) :
    ∀ {nodes : List Digest}, 2 * (j + 1) ≤ nodes.length →
      ∃ nodes', buildParents digest j nodes = some nodes' ∧ nodes'.length = nodes.length ∧
        (∀ k, j < k → nodes'[k]? = nodes[k]?) ∧
        ∀ k, 1 ≤ k → k ≤ j → IsParent digest nodes' k := by
  induction j with
  | zero =>
    intro nodes _
    refine ⟨nodes, rfl, rfl, fun _ _ => rfl, ?_⟩
    intro k hpos hk
    omega
  | succ j ih =>
    intro nodes hroom
    have hleft := List.getElem?_eq_getElem (show 2 * (j + 1) < nodes.length by omega)
    have hright := List.getElem?_eq_getElem (show 2 * (j + 1) + 1 < nodes.length by omega)
    obtain ⟨nodes', hrun, hlength, habove, hparents⟩ := @ih (nodes.set (j + 1)
      (digest (nodes[2 * (j + 1)].1 ++ nodes[2 * (j + 1) + 1].1)))
      (by rw [List.length_set]; omega)
    rw [List.length_set] at hlength
    have hkept : ∀ k, j + 1 < k → nodes'[k]? = nodes[k]? := by
      intro k hk
      rw [habove k (by omega), List.getElem?_set_ne (by omega)]
    refine ⟨nodes', ?_, hlength, hkept, ?_⟩
    · rw [buildParents, hleft, Option.bind_eq_bind, Option.bind_some, hright, Option.bind_some]
      exact hrun
    · intro k hpos hk
      by_cases heq : k = j + 1
      · rw [heq]
        refine ⟨_, _, (hkept _ (by omega)).trans hleft, (hkept _ (by omega)).trans hright, ?_⟩
        rw [habove _ (by omega), List.getElem?_set_self (by omega)]
      · exact hparents k hpos (by omega)

theorem build_spec {blocks : List Bytes} {k : Nat} (hpow : blocks.length = 2 ^ k) :
    ∃ tree, build digest blocks = some tree ∧ IsTree digest blocks tree := by
  have hpos : 0 < blocks.length := by
    rw [hpow]
    exact Nat.two_pow_pos k
  have hroom : blocks.length + blocks.length ≤
      (List.replicate (2 * blocks.length) zeroDigest).length := by
    rw [List.length_replicate]
    omega
  have hleaves := length_hashLeaves digest blocks blocks.length
    (List.replicate (2 * blocks.length) zeroDigest)
  rw [List.length_replicate] at hleaves
  obtain ⟨nodes, hrun, hlength, habove, hparents⟩ := @buildParents_spec digest
    (blocks.length - 1) (hashLeaves digest blocks blocks.length
      (List.replicate (2 * blocks.length) zeroDigest)) (by omega)
  refine ⟨⟨nodes, blocks.length⟩, ?_, rfl, hlength.trans hleaves, ?_, ?_⟩
  · rw [build, hpow, isPowerOfTwo_pow, if_pos rfl, ← hpow, hrun]
    rfl
  · intro i block hblock
    rw [habove _ (by omega)]
    exact hashLeaves_leaf hblock hroom
  · intro j hj hlt
    exact hparents j hj (by omega)

/-! ### Two leaves -/

def digestA : Digest :=
  ⟨[202, 151, 129, 18, 202, 27, 189, 202, 250, 194, 49, 179, 154, 35, 220, 77,
    167, 134, 239, 248, 20, 124, 78, 114, 185, 128, 119, 133, 175, 238, 72, 187], rfl⟩

def digestB : Digest :=
  ⟨[62, 35, 232, 22, 0, 57, 89, 74, 51, 137, 79, 101, 100, 225, 177, 52,
    139, 189, 122, 0, 136, 212, 44, 74, 203, 115, 238, 174, 213, 156, 0, 157], rfl⟩

def digestAB : Digest :=
  ⟨[229, 160, 31, 238, 20, 224, 237, 92, 72, 113, 79, 34, 24, 15, 37, 173,
    131, 101, 181, 63, 151, 121, 247, 157, 196, 163, 215, 233, 57, 99, 249, 74], rfl⟩

/-- SHA-256 on `a`, on `b` and on their two digests. -/
def sha256 (bytes : Bytes) : Digest :=
  if bytes = [97] then digestA
  else if bytes = [98] then digestB
  else if bytes = digestA.1 ++ digestB.1 then digestAB
  else zeroDigest

def treeAB : MerkleTree := ⟨[zeroDigest, digestAB, digestA, digestB], 2⟩

theorem build_ab : build sha256 [[97], [98]] = some treeAB := by decide +kernel

/-! ### Honest proofs -/

section Nodes

variable {blocks : List Bytes} {tree : MerkleTree} {k : Nat}

/-- A node and its sibling are the children of the parent. -/
theorem IsTree.join (h : IsTree digest blocks tree) {i : Nat} (hi : 1 < i)
    (hlt : i < 2 * blocks.length) :
    ∃ current sibling, tree.nodes[i]? = some current ∧ tree.nodes[siblingOf i]? = some sibling ∧
      tree.nodes[i / 2]? = some (digest (joined i current sibling)) ∧
      childrenOf tree.nodes (i / 2) = some (joined i current sibling) := by
  obtain ⟨left, right, hleft, hright, hparent⟩ := h.parent (i / 2) (by omega) (by omega)
  have hchildren : childrenOf tree.nodes (i / 2) = some (left.1 ++ right.1) := by
    rw [childrenOf, hleft, Option.bind_eq_bind, Option.bind_some, hright]
    rfl
  by_cases heven : i % 2 = 0
  · have htwo : 2 * (i / 2) = i := by omega
    rw [htwo] at hleft hright
    refine ⟨left, right, hleft, ?_, ?_, ?_⟩
    · rw [siblingOf, if_pos heven]
      exact hright
    · rw [joined, if_pos heven]
      exact hparent
    · rw [joined, if_pos heven]
      exact hchildren
  · have htwo : 2 * (i / 2) + 1 = i := by omega
    have hpred : 2 * (i / 2) = i - 1 := by omega
    rw [htwo] at hright
    rw [hpred] at hleft
    refine ⟨right, left, hright, ?_, ?_, ?_⟩
    · rw [siblingOf, if_neg heven]
      exact hleft
    · rw [joined, if_neg heven]
      exact hparent
    · rw [joined, if_neg heven]
      exact hchildren

/-- The proof of a node has one sibling for each level above it, and leads to the root. -/
theorem proofLoop_spec (h : IsTree digest blocks tree) (fuel : Nat) :
    ∀ {i : Nat} {current : Digest}, 1 ≤ i → i < 2 * blocks.length → i < fuel →
      tree.nodes[i]? = some current →
      ∃ path, proofLoop tree.nodes fuel i = some path ∧ path.length = Nat.log2 i ∧
        tree.root = some (verifyLoop digest i current path) := by
  induction fuel with
  | zero =>
    intro i current _ _ hfuel
    omega
  | succ fuel ih =>
    intro i current hi hlt hfuel hcurrent
    rw [proofLoop]
    by_cases htop : 1 < i
    · obtain ⟨current', sibling, hcurrent', hsibling, hparent, -⟩ := h.join htop hlt
      rw [hcurrent] at hcurrent'
      rw [← Option.some.inj hcurrent'] at hparent
      obtain ⟨path, hrun, hlength, hroot⟩ := ih (show 1 ≤ i / 2 by omega) (by omega)
        (by omega) hparent
      refine ⟨sibling :: path, ?_, ?_, hroot⟩
      · rw [if_pos htop, hsibling, Option.bind_eq_bind, Option.bind_some, hrun]
        rfl
      · rw [List.length_cons, hlength, Nat.log2_def i, if_pos (by omega)]
    · have hone : i = 1 := by omega
      rw [if_neg htop]
      refine ⟨[], rfl, ?_, ?_⟩
      · rw [hone]
        rfl
      · rw [hone] at hcurrent
        exact hcurrent

theorem log2_leaf {i l k : Nat} (hpow : l = 2 ^ k) (hi : i < l) : Nat.log2 (i + l) = k := by
  rw [Nat.log2_eq_iff (by omega), hpow, Nat.pow_succ]
  omega

end Nodes

theorem IsTree.leaf_lt {blocks : List Bytes} {tree : MerkleTree} (h : IsTree digest blocks tree)
    {i : Nat} {block : Bytes} (hblock : blocks[i]? = some block) :
    i < tree.leafCount ∧ tree.nodes[i + tree.leafCount]? = some (digest block) := by
  obtain ⟨hi, -⟩ := List.getElem?_eq_some_iff.mp hblock
  rw [h.leafCount, Nat.add_comm]
  exact ⟨hi, h.leaf i block hblock⟩

/-- The tree over a power of two of blocks is the fold of the hashes of its leaves, and for
    every leaf the path to the root stays inside the array, has as many siblings as there are
    levels, and is accepted. -/
theorem proof_complete (digest : Bytes → Digest) (blocks : List Bytes)
    (hpow : ∃ k, blocks.length = 2 ^ k) :
    ∃ tree root, build digest blocks = some tree ∧ tree.root = some root ∧
      IsTree digest blocks tree ∧
      ∀ i block, blocks[i]? = some block →
        ∃ path, tree.proof i = some path ∧ path.length = Nat.log2 tree.leafCount ∧
          verify digest block i tree.leafCount path root = true := by
  obtain ⟨k, hpow⟩ := hpow
  obtain ⟨tree, hbuild, htree⟩ := @build_spec digest blocks k hpow
  have hpos : 0 < blocks.length := by
    rw [hpow]
    exact Nat.two_pow_pos k
  have hlength := htree.length
  obtain ⟨root, hroot⟩ : ∃ root, tree.root = some root :=
    ⟨_, List.getElem?_eq_getElem (show 1 < tree.nodes.length by omega)⟩
  refine ⟨tree, root, hbuild, hroot, htree, ?_⟩
  intro i block hblock
  obtain ⟨hi, hleaf⟩ := htree.leaf_lt hblock
  have hcount := htree.leafCount
  obtain ⟨path, hrun, hlog, hverify⟩ := proofLoop_spec htree (i + tree.leafCount + 1)
    (show 1 ≤ i + tree.leafCount by omega) (by omega) (by omega) hleaf
  refine ⟨path, hrun, ?_, ?_⟩
  · rw [hlog, log2_leaf (hcount.trans hpow) hi, hcount, hpow, Nat.log2_two_pow]
  · rw [hroot] at hverify
    exact beq_iff_eq.mpr (Option.some.inj hverify).symm

theorem proof_complete_ab :
    ∃ tree root, build sha256 [[97], [98]] = some tree ∧ tree.root = some root ∧
      IsTree sha256 [[97], [98]] tree ∧
      ∀ i block, ([[97], [98]] : List Bytes)[i]? = some block →
        ∃ path, tree.proof i = some path ∧ path.length = Nat.log2 tree.leafCount ∧
          verify sha256 block i tree.leafCount path root = true :=
  proof_complete sha256 [[97], [98]] ⟨1, rfl⟩

/-! ### Forged proofs -/

theorem NoCollision.tail {built hashed : List Bytes} {bytes : Bytes}
    (h : NoCollision digest (built ++ bytes :: hashed)) :
    NoCollision digest (built ++ hashed) := by
  have hmore : built ++ hashed ⊆ built ++ bytes :: hashed :=
    List.append_subset.mpr ⟨List.subset_append_left ..,
      List.Subset.trans (List.subset_cons_self bytes hashed) (List.subset_append_right ..)⟩
  intro x hx y hy
  exact h x (hmore hx) y (hmore hy)

theorem joined_inj {index : Nat} {current sibling current' sibling' : Digest}
    (h : joined index current sibling = joined index current' sibling') : current = current' := by
  unfold joined at h
  by_cases heven : index % 2 = 0
  · rw [if_pos heven, if_pos heven] at h
    exact Subtype.ext (List.append_inj_left h (current.2.trans current'.2.symm))
  · rw [if_neg heven, if_neg heven] at h
    exact Subtype.ext (List.append_inj_right h (sibling.2.trans sibling'.2.symm))

theorem childrenOf_mem {blocks : List Bytes} {tree : MerkleTree}
    (h : IsTree digest blocks tree) {j : Nat} {children : Bytes} (hpos : 1 ≤ j)
    (hj : j < blocks.length) (hchildren : childrenOf tree.nodes j = some children) :
    children ∈ builtFrom tree blocks := by
  rw [builtFrom, h.leafCount]
  have hmem : j ∈ List.range' 1 (blocks.length - 1) := List.mem_range'_1.mpr (by omega)
  exact List.mem_append_right _ (List.mem_filterMap.mpr ⟨j, hmem, hchildren⟩)

/-- A list with one sibling for each level that leads from a digest to the root starts at the
    node: going down from the root, equal digests have equal children. -/
theorem node_of_verifyLoop {blocks : List Bytes} {tree : MerkleTree}
    (h : IsTree digest blocks tree) (proof : List Digest) :
    ∀ {i : Nat} {current : Digest}, 1 ≤ i → i < 2 * blocks.length →
      Nat.log2 i = proof.length →
      NoCollision digest (builtFrom tree blocks ++ loopHashes digest i current proof) →
      tree.root = some (verifyLoop digest i current proof) → tree.nodes[i]? = some current := by
  induction proof with
  | nil =>
    intro i current hi _ hlog _ hroot
    have hone : i = 1 := by
      have hlt : i < 2 ^ (Nat.log2 i + 1) := Nat.lt_log2_self
      rw [hlog] at hlt
      change i < 2 at hlt
      omega
    rw [hone]
    exact hroot
  | cons sibling proof ih =>
    intro i current hi hlt hlog hfree hroot
    have htop : 1 < i := by
      by_contra hle
      have hone : i = 1 := by omega
      rw [hone] at hlog
      cases hlog
    rw [Nat.log2_def, if_pos (show 2 ≤ i from htop), List.length_cons] at hlog
    obtain ⟨current', sibling', hcurrent', -, hparent, hchildren⟩ := h.join htop hlt
    have hhalf : tree.nodes[i / 2]? = some (digest (joined i current sibling)) :=
      ih (by omega) (by omega) (by omega) hfree.tail hroot
    rw [hparent] at hhalf
    have hmem := childrenOf_mem h (by omega) (by omega) hchildren
    have hsame := hfree _ (List.mem_append_left _ hmem)
      _ (List.mem_append_right _ List.mem_cons_self) (Option.some.inj hhalf)
    rw [hcurrent', joined_inj hsame]

/-- A proof with one sibling for each level that is accepted for an index is a proof of the
    block at that index, where the strings that are hashed for the tree and for the check do
    not collide. -/
theorem verify_sound (digest : Bytes → Digest) (blocks : List Bytes)
    (hpow : ∃ k, blocks.length = 2 ^ k) (tree : MerkleTree) (root : Digest)
    (hbuild : build digest blocks = some tree) (hroot : tree.root = some root)
    (leafData : Bytes) (index : Nat) (hindex : index < tree.leafCount) (proof : List Digest)
    (hlength : proof.length = Nat.log2 tree.leafCount)
    (hfree : NoCollision digest
      (builtFrom tree blocks ++ verifiedFrom digest leafData index tree.leafCount proof))
    (hverify : verify digest leafData index tree.leafCount proof root = true) :
    blocks[index]? = some leafData := by
  obtain ⟨k, hpow⟩ := hpow
  obtain ⟨tree', hbuild', htree⟩ := @build_spec digest blocks k hpow
  rw [hbuild] at hbuild'
  rw [← Option.some.inj hbuild'] at htree
  have hcount := htree.leafCount
  have hblock : blocks[index]? = some blocks[index] := List.getElem?_eq_getElem (by omega)
  obtain ⟨-, hleaf⟩ := htree.leaf_lt hblock
  have hlog : Nat.log2 (index + tree.leafCount) = proof.length := by
    rw [hlength, log2_leaf (hcount.trans hpow) hindex, hcount, hpow, Nat.log2_two_pow]
  have hnode : tree.nodes[index + tree.leafCount]? = some (digest leafData) := by
    apply node_of_verifyLoop htree proof (by omega) (by omega) hlog hfree.tail
    rw [hroot, beq_iff_eq.mp hverify]
  rw [hleaf] at hnode
  rw [hblock]
  exact congrArg some (hfree _
    (List.mem_append_left _ (List.mem_append_left _ (List.getElem_mem _))) _
    (List.mem_append_right _ List.mem_cons_self) (Option.some.inj hnode))

theorem verify_sound_ab :
    verify sha256 [97] 0 2 [digestB] digestAB = true ∧
      ([[97], [98]] : List Bytes)[0]? = some [97] :=
  ⟨by decide +kernel, verify_sound sha256 [[97], [98]] ⟨1, rfl⟩ treeAB digestAB build_ab rfl
    [97] 0 (by decide) [digestB] (by decide) (by decide +kernel) (by decide +kernel)⟩

/-- The two digests under the root, given as the data of a leaf with no sibling. -/
theorem children_of_root_accepted :
    ¬ ∀ (digest : Bytes → Digest) (blocks : List Bytes) (tree : MerkleTree) (root : Digest)
      (leafData : Bytes) (index : Nat) (proof : List Digest),
      (∃ k, blocks.length = 2 ^ k) → build digest blocks = some tree → tree.root = some root →
        index < tree.leafCount →
        NoCollision digest
          (builtFrom tree blocks ++ verifiedFrom digest leafData index tree.leafCount proof) →
        verify digest leafData index tree.leafCount proof root = true →
        blocks[index]? = some leafData := by
  intro h
  have hleaf := h sha256 [[97], [98]] treeAB digestAB (digestA.1 ++ digestB.1) 0 [] ⟨1, rfl⟩
    build_ab rfl (by decide) (by decide +kernel) (by decide +kernel)
  revert hleaf
  decide +kernel

end Canon.Algorithms.Merkle
