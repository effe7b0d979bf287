import Mathlib.Algebra.Group.Nat.Defs
import Mathlib.Data.List.Nodup
import Mathlib.Data.List.Perm.Subperm
import Mathlib.Data.Prod.Lex

/-!
# The hash tree of a finalization round (`FinalizationHashTree`)

The prevotes of a round are branches of hashes. The tree keeps, for every (height, hash) key, the node that was
inserted first: a later branch through a known key neither replaces the node nor its parent pointer. Nodes are never
changed after their insertion, so a parent pointer is modelled by the parent node itself.
-/

namespace Catapult.Finalization

abbrev Hash256 := BitVec 256

/-- A height and a hash (`model::HeightHashPair`). -/
structure HeightHashPair where
  height : UInt64
  hash : Hash256
deriving Repr

/-- `RoundContext::HeightHashPairComparer`: by height, then by hash. -/
instance : LinearOrder HeightHashPair :=
  LinearOrder.lift' (fun p => toLex (p.height.toNat, p.hash.toNat)) fun ⟨h, x⟩ ⟨h', x'⟩ heq => by
    simp only [EmbeddingLike.apply_eq_iff_eq, Prod.mk.injEq] at heq
    rw [HeightHashPair.mk.injEq]
    exact ⟨UInt64.toNat_inj.1 heq.1, BitVec.eq_of_toNat_eq heq.2⟩

instance : LawfulBEq HeightHashPair := inferInstance

/-- The keys of a branch of hashes that starts at `height`. -/
def branchKeys (height : UInt64) : List Hash256 → List HeightHashPair
  | [] => []
  | hash :: hashes => ⟨height, hash⟩ :: branchKeys (height + 1) hashes

/-- `FinalizationHashTree::TreeNode`: a key and a parent pointer. -/
inductive TreeNode where
  | root (key : HeightHashPair)
  | child (key : HeightHashPair) (pParent : TreeNode)
deriving DecidableEq, Repr

namespace TreeNode

def key : TreeNode → HeightHashPair
  | root key => key
  | child key _ => key

/-- The node with key `key` and parent pointer `pParent`. -/
def make (key : HeightHashPair) : Option TreeNode → TreeNode
  | none => root key
  | some pParent => child key pParent

def chain : TreeNode → List TreeNode
  | root key => [root key]
  | child key pParent => child key pParent :: pParent.chain

@[simp] theorem key_root (key : HeightHashPair) : (root key).key = key := rfl
@[simp] theorem key_child (key : HeightHashPair) (pParent : TreeNode) : (child key pParent).key = key := rfl

@[simp] theorem key_make (key : HeightHashPair) (pParent : Option TreeNode) : (make key pParent).key = key := by
  cases pParent <;> rfl

theorem self_mem_chain (node : TreeNode) : node ∈ node.chain := by
  cases node <;> simp [chain]

theorem mem_chain_make {key : HeightHashPair} {pParent : Option TreeNode} {m : TreeNode}
    (h : m ∈ (make key pParent).chain) : m = make key pParent ∨ ∃ p ∈ pParent, m ∈ p.chain := by
  cases pParent with
  | none => exact .inl (by simpa [make, chain] using h)
  | some p =>
    rcases List.mem_cons.1 h with h | h
    · exact .inl h
    · exact .inr ⟨p, rfl, h⟩

theorem mem_chain_trans {a b node : TreeNode} (hab : a ∈ b.chain) (hb : b ∈ node.chain) : a ∈ node.chain := by
  induction node with
  | root key =>
    rw [chain, List.mem_singleton] at hb
    exact hb ▸ hab
  | child key p ih =>
    rcases List.mem_cons.1 hb with rfl | hb
    · exact hab
    · exact List.mem_cons_of_mem _ (ih hb)

theorem chain_comparable {node a b : TreeNode} (ha : a ∈ node.chain) (hb : b ∈ node.chain) :
    a ∈ b.chain ∨ b ∈ a.chain := by
  induction node with
  | root key =>
    simp only [chain, List.mem_singleton] at ha hb
    subst ha hb; exact .inl (self_mem_chain _)
  | child key p ih =>
    rcases List.mem_cons.1 ha with rfl | ha
    · exact .inr hb
    rcases List.mem_cons.1 hb with rfl | hb
    · exact .inl (List.mem_cons_of_mem _ ha)
    · exact ih ha hb

theorem sizeOf_le_of_mem_chain {node m : TreeNode} (h : m ∈ node.chain) : sizeOf m ≤ sizeOf node := by
  induction node with
  | root key => simp only [chain, List.mem_singleton] at h; rw [h]
  | child key p ih =>
    rcases List.mem_cons.1 h with rfl | h
    · exact Nat.le_refl _
    · exact (ih h).trans (by simp)

theorem chain_nodup (node : TreeNode) : node.chain.Nodup := by
  induction node with
  | root key => simp [chain]
  | child key p ih =>
    refine List.nodup_cons.2 ⟨fun h => ?_, ih⟩
    have := sizeOf_le_of_mem_chain h
    simp only [child.sizeOf_spec] at this
    omega

def Graded : TreeNode → Prop
  | root _ => True
  | child key pParent => key.height = pParent.key.height + 1 ∧ pParent.Graded

theorem Graded.height_of_mem_chain {node m : TreeNode} (h : node.Graded) (hm : m ∈ node.chain) :
    ∃ d, (m = node ∧ d = 0 ∨ 0 < d) ∧ d < node.chain.length ∧ node.key.height = m.key.height + UInt64.ofNat d := by
  induction node with
  | root key =>
    rw [chain, List.mem_singleton] at hm
    exact ⟨0, .inl ⟨hm, rfl⟩, by simp [chain], by simp [hm]⟩
  | child key p ih =>
    rcases List.mem_cons.1 hm with rfl | hm
    · exact ⟨0, .inl ⟨rfl, rfl⟩, by simp [chain], by simp⟩
    · obtain ⟨d, -, hlt, hheight⟩ := ih h.2 hm
      refine ⟨d + 1, .inr (Nat.succ_pos d), by simpa [chain] using hlt, ?_⟩
      rw [key_child, h.1, hheight, UInt64.ofNat_add, UInt64.add_assoc]
      rfl

theorem Graded.eq_of_mem_chain {node m : TreeNode} (h : node.Graded) (hlen : node.chain.length < 2 ^ 64)
    (hm : m ∈ node.chain) (hheight : m.key.height = node.key.height) : m = node := by
  obtain ⟨d, hd, hlt, heq⟩ := h.height_of_mem_chain hm
  rcases hd with ⟨hd, -⟩ | hd
  · exact hd
  · have hnat := congrArg UInt64.toNat heq
    rw [← hheight, UInt64.toNat_add, UInt64.toNat_ofNat', Nat.mod_eq_of_lt (a := d) (by omega)] at hnat
    have := m.key.height.toNat_lt
    omega

end TreeNode

/-- `FinalizationHashTree`: a set of nodes with distinct keys. -/
structure FinalizationHashTree where
  nodes : List TreeNode := []
deriving Repr

namespace FinalizationHashTree
variable {tree : FinalizationHashTree} {pParent : Option TreeNode} {keys : List HeightHashPair}

def size (tree : FinalizationHashTree) : Nat := tree.nodes.length

def tryFindNode (tree : FinalizationHashTree) (key : HeightHashPair) : Option TreeNode :=
  tree.nodes.find? fun node => node.key == key

def contains (tree : FinalizationHashTree) (key : HeightHashPair) : Bool :=
  (tree.tryFindNode key).isSome

/-- All ancestors of `key`, inclusive. -/
def findAncestors (tree : FinalizationHashTree) (key : HeightHashPair) : List HeightHashPair :=
  match tree.tryFindNode key with
  | none => []
  | some node => node.chain.map TreeNode.key

/-- `childKey` descends from `parentKey`, inclusive. -/
def isDescendant (tree : FinalizationHashTree) (parentKey childKey : HeightHashPair) : Bool :=
  match tree.tryFindNode childKey with
  | none => false
  | some node => node.chain.any fun n => n.key == parentKey

/-- `m_tree.insert(node)`: keeps a node that has the same key already. Returns the node in the set. -/
def insert (tree : FinalizationHashTree) (node : TreeNode) : FinalizationHashTree × TreeNode :=
  match tree.tryFindNode node.key with
  | some existing => (tree, existing)
  | none => (⟨node :: tree.nodes⟩, node)

/-- The loop of `addBranch`: every node points to the node found or inserted before it. -/
def addKeys (tree : FinalizationHashTree) (pParent : Option TreeNode) : List HeightHashPair → FinalizationHashTree
  | [] => tree
  | key :: keys =>
    let (tree, node) := tree.insert (TreeNode.make key pParent)
    tree.addKeys (some node) keys

def addBranch (tree : FinalizationHashTree) (height : UInt64) (hashes : List Hash256) : FinalizationHashTree :=
  tree.addKeys none (branchKeys height hashes)

theorem addKeys_cons (tree : FinalizationHashTree) (pParent : Option TreeNode) (key : HeightHashPair)
    (keys : List HeightHashPair) :
    tree.addKeys pParent (key :: keys) =
      (tree.insert (TreeNode.make key pParent)).1.addKeys (some (tree.insert (TreeNode.make key pParent)).2) keys :=
  rfl

@[simp] theorem tryFindNode_empty (key : HeightHashPair) : tryFindNode {} key = none := rfl

theorem key_of_tryFindNode {key : HeightHashPair} {node : TreeNode} (h : tree.tryFindNode key = some node) :
    node.key = key := by
  simpa using List.find?_some h

theorem tryFindNode_insert (tree : FinalizationHashTree) (node : TreeNode) (key : HeightHashPair) :
    (tree.insert node).1.tryFindNode key =
      if key = node.key then some (tree.insert node).2 else tree.tryFindNode key := by
  unfold insert
  split
  · rename_i existing h
    by_cases hk : key = node.key
    · simp [hk, h]
    · simp [hk]
  · rename_i h
    by_cases hk : key = node.key
    · simp [hk, tryFindNode]
    · simp [hk, tryFindNode, Ne.symm hk]

theorem insert_of_none {node : TreeNode} (h : tree.tryFindNode node.key = none) :
    tree.insert node = (⟨node :: tree.nodes⟩, node) := by
  simp [insert, h]

theorem key_insert (tree : FinalizationHashTree) (node : TreeNode) : (tree.insert node).2.key = node.key := by
  unfold insert
  split
  · rename_i existing h; exact key_of_tryFindNode h
  · rfl

theorem tryFindNode_insert_of_some {node n : TreeNode} {key : HeightHashPair}
    (h : tree.tryFindNode key = some n) : (tree.insert node).1.tryFindNode key = some n := by
  rw [tryFindNode_insert]
  split
  · rename_i hk; subst hk; simp [insert, h]
  · exact h

theorem contains_insert (tree : FinalizationHashTree) (node : TreeNode) (key : HeightHashPair) :
    (tree.insert node).1.contains key = true ↔ key = node.key ∨ tree.contains key = true := by
  unfold contains
  rw [tryFindNode_insert]
  by_cases hk : key = node.key <;> simp [hk]

theorem tryFindNode_addKeys_of_some {n : TreeNode} {key : HeightHashPair}
    (h : tree.tryFindNode key = some n) : (tree.addKeys pParent keys).tryFindNode key = some n := by
  induction keys generalizing tree pParent with
  | nil => exact h
  | cons k keys ih => exact ih (tryFindNode_insert_of_some h)

theorem tryFindNode_addKeys_append {n : TreeNode} {key : HeightHashPair} {keys' : List HeightHashPair}
    (h : (tree.addKeys pParent keys).tryFindNode key = some n) :
    (tree.addKeys pParent (keys ++ keys')).tryFindNode key = some n := by
  induction keys generalizing tree pParent with
  | nil => exact tryFindNode_addKeys_of_some h
  | cons k keys ih => exact ih h

theorem contains_addKeys (tree : FinalizationHashTree) (pParent : Option TreeNode)
    (keys : List HeightHashPair) (key : HeightHashPair) :
    (tree.addKeys pParent keys).contains key = true ↔ tree.contains key = true ∨ key ∈ keys := by
  induction keys generalizing tree pParent with
  | nil => simp [addKeys]
  | cons k keys ih =>
    rw [addKeys_cons, ih, contains_insert, TreeNode.key_make, List.mem_cons]
    tauto

theorem contains_addBranch (tree : FinalizationHashTree) (height : UInt64) (hashes : List Hash256)
    (key : HeightHashPair) :
    (tree.addBranch height hashes).contains key = true ↔
      tree.contains key = true ∨ key ∈ branchKeys height hashes :=
  contains_addKeys ..

theorem tryFindNode_addBranch_of_contains {height : UInt64} {hashes : List Hash256} {key : HeightHashPair}
    (h : tree.contains key = true) : (tree.addBranch height hashes).tryFindNode key = tree.tryFindNode key := by
  obtain ⟨n, hn⟩ := Option.isSome_iff_exists.1 h
  rw [hn]; exact tryFindNode_addKeys_of_some hn

def Closed (tree : FinalizationHashTree) : Prop :=
  ∀ ⦃key node⦄, tree.tryFindNode key = some node → ∀ m ∈ node.chain, tree.tryFindNode m.key = some m

theorem closed_empty : Closed {} := fun key node h => by simp at h

theorem Closed.insert (h : tree.Closed) {key : HeightHashPair}
    (hp : ∀ p ∈ pParent, tree.tryFindNode p.key = some p) :
    (tree.insert (TreeNode.make key pParent)).1.Closed := by
  intro k node hk m hm
  rw [tryFindNode_insert] at hk
  split at hk
  · cases hk
    by_cases hnew : tree.tryFindNode key = none
    · -- a fresh node: its chain is itself followed by the chain of its parent
      have hnode : (tree.insert (TreeNode.make key pParent)).2 = TreeNode.make key pParent := by
        rw [insert_of_none (by simpa using hnew)]
      rw [hnode] at hm
      rcases TreeNode.mem_chain_make hm with rfl | ⟨p, hp', hm⟩
      · rw [tryFindNode_insert, if_pos rfl, hnode]
      · exact tryFindNode_insert_of_some (h (hp p hp') m hm)
    · obtain ⟨n, hn⟩ := Option.ne_none_iff_exists'.1 hnew
      have hnode : (tree.insert (TreeNode.make key pParent)).2 = n := by
        simp [FinalizationHashTree.insert, hn]
      rw [hnode] at hm
      exact tryFindNode_insert_of_some (h hn m hm)
  · exact tryFindNode_insert_of_some (h hk m hm)

theorem Closed.addKeys (h : tree.Closed) (hp : ∀ p ∈ pParent, tree.tryFindNode p.key = some p) :
    (tree.addKeys pParent keys).Closed := by
  induction keys generalizing tree pParent with
  | nil => exact h
  | cons key keys ih =>
    rw [addKeys_cons]
    refine ih (h.insert hp) fun p hp' => ?_
    rw [← Option.some.inj hp', key_insert, tryFindNode_insert, if_pos rfl]

theorem Closed.addBranch (h : tree.Closed) (height : UInt64) (hashes : List Hash256) :
    (tree.addBranch height hashes).Closed :=
  h.addKeys fun p hp => by simp at hp

theorem mem_findAncestors_iff {key a : HeightHashPair} :
    a ∈ tree.findAncestors key ↔ tree.isDescendant a key = true := by
  unfold findAncestors isDescendant
  split <;> simp

theorem findAncestors_eq_nil_iff {key : HeightHashPair} :
    tree.findAncestors key = [] ↔ tree.contains key = false := by
  unfold findAncestors contains
  cases tree.tryFindNode key with
  | none => simp
  | some node => cases node <;> simp [TreeNode.chain]

theorem isDescendant_iff {a key : HeightHashPair} :
    tree.isDescendant a key = true ↔ ∃ node, tree.tryFindNode key = some node ∧ ∃ n ∈ node.chain, n.key = a := by
  unfold isDescendant
  split <;> simp [*]

theorem isDescendant_self {key : HeightHashPair} : tree.isDescendant key key = tree.contains key := by
  unfold isDescendant contains
  cases h : tree.tryFindNode key with
  | none => rfl
  | some node =>
    simp only [List.any_eq_true, beq_iff_eq, Option.isSome_some]
    exact ⟨node, node.self_mem_chain, key_of_tryFindNode h⟩

theorem contains_of_isDescendant {a key : HeightHashPair} (h : tree.isDescendant a key = true) :
    tree.contains key = true := by
  obtain ⟨node, hn, -⟩ := isDescendant_iff.1 h
  simp [contains, hn]

theorem Closed.contains_ancestor (h : tree.Closed) {a key : HeightHashPair}
    (ha : tree.isDescendant a key = true) : tree.contains a = true := by
  obtain ⟨node, hn, m, hm, rfl⟩ := isDescendant_iff.1 ha
  simp [contains, h hn m hm]

theorem Closed.findAncestors_nodup (h : tree.Closed) (key : HeightHashPair) : (tree.findAncestors key).Nodup := by
  unfold findAncestors
  split
  · exact List.nodup_nil
  · rename_i node hn
    refine List.Nodup.map_on ?_ node.chain_nodup
    intro m hm m' hm' heq
    have hm := h hn m hm
    rw [heq, h hn m' hm'] at hm
    exact (Option.some.inj hm).symm

theorem Closed.comparable (h : tree.Closed) {a b key : HeightHashPair}
    (ha : tree.isDescendant a key = true) (hb : tree.isDescendant b key = true) :
    tree.isDescendant a b = true ∨ tree.isDescendant b a = true := by
  obtain ⟨node, hn, n, hna, rfl⟩ := isDescendant_iff.1 ha
  obtain ⟨node', hn', m, hmb, rfl⟩ := isDescendant_iff.1 hb
  rw [hn] at hn'; cases hn'
  have hn₁ := h hn n hna
  have hm₁ := h hn m hmb
  exact (TreeNode.chain_comparable hna hmb).imp (fun hab => isDescendant_iff.2 ⟨m, hm₁, n, hab, rfl⟩)
    fun hba => isDescendant_iff.2 ⟨n, hn₁, m, hba, rfl⟩

theorem mem_nodes_of_tryFindNode {key : HeightHashPair} {node : TreeNode} (h : tree.tryFindNode key = some node) :
    node ∈ tree.nodes :=
  List.mem_of_find?_eq_some h

theorem Closed.chain_length_le (h : tree.Closed) {key : HeightHashPair} {node : TreeNode}
    (hn : tree.tryFindNode key = some node) : node.chain.length ≤ tree.size :=
  (node.chain_nodup.subperm fun m hm => mem_nodes_of_tryFindNode (h hn m hm)).length_le

def Graded (tree : FinalizationHashTree) : Prop :=
  ∀ ⦃key node⦄, tree.tryFindNode key = some node → node.Graded

theorem Graded.insert (h : tree.Graded) {node : TreeNode} (hn : node.Graded) :
    (tree.insert node).1.Graded ∧ (tree.insert node).2.Graded := by
  have h2 : (tree.insert node).2.Graded := by
    unfold FinalizationHashTree.insert
    split
    · rename_i existing hex; exact h hex
    · exact hn
  refine ⟨fun key m hm => ?_, h2⟩
  rw [tryFindNode_insert] at hm
  split at hm
  · cases hm; exact h2
  · exact h hm

theorem Graded.addKeys {height : UInt64} {hashes : List Hash256} (h : tree.Graded)
    (hp : ∀ p ∈ pParent, p.Graded ∧ height = p.key.height + 1) :
    (tree.addKeys pParent (branchKeys height hashes)).Graded := by
  induction hashes generalizing tree pParent height with
  | nil => exact h
  | cons hash hashes ih =>
    have hmake : (TreeNode.make ⟨height, hash⟩ pParent).Graded := by
      cases pParent with
      | none => trivial
      | some p => exact ⟨(hp p rfl).2, (hp p rfl).1⟩
    have hins := h.insert hmake
    rw [branchKeys, addKeys_cons]
    refine ih hins.1 fun p hp' => ?_
    obtain rfl := Option.some.inj hp'
    exact ⟨hins.2, by rw [key_insert, TreeNode.key_make]⟩

theorem Graded.addBranch (h : tree.Graded) (height : UInt64) (hashes : List Hash256) :
    (tree.addBranch height hashes).Graded :=
  h.addKeys fun p hp => by simp at hp

theorem Graded.eq_of_isDescendant (hgraded : tree.Graded) (hclosed : tree.Closed) (hsize : tree.size < 2 ^ 64)
    {a key : HeightHashPair} (h : tree.isDescendant a key = true) (hheight : a.height = key.height) : a = key := by
  obtain ⟨node, hn, m, hm, rfl⟩ := isDescendant_iff.1 h
  have hkey := key_of_tryFindNode hn
  have hlen := hclosed.chain_length_le hn
  rw [(hgraded hn).eq_of_mem_chain (by omega) hm (by rw [hheight, hkey]), hkey]

end FinalizationHashTree
end Catapult.Finalization
