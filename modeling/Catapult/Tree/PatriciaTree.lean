import Mathlib.Algebra.GroupWithZero.Nat
import Mathlib.Data.Fintype.Card

/-!
# Patricia trees (`PatriciaTree`)

`set`, `unset` and `lookup` as the client computes them. Nodes that were changed since the last save are linked in
memory; the others are known by their hash and read from a data source. Paths are lists of nibbles. Reading a nibble
past the end of a path is not defined in the source: the functions return `none` there, which never happens for keys
of one length.
-/

namespace Catapult.Tree

abbrev Nibble := Fin 16

instance neZero_nibbles : NeZero 16 := ⟨by decide⟩

abbrev TreeNodePath := List Nibble

/-- The hashes of leaf and branch nodes, and the zero hash of the empty node. -/
structure NodeHasher (Hash : Type*) where
  leaf : TreeNodePath → Hash → Hash
  branch : TreeNodePath → (Nibble → Hash) → Hash
  zero : Hash

/-- `TreeNode`. The links of a branch are nodes too: `empty` is a link that is not set, `reference` a link
that has only the hash of a node (`m_links`), and every other node a linked node (`m_linkedNodes`). -/
inductive TreeNode (Hash : Type*) where
  | empty
  | leaf (path : TreeNodePath) (value : Hash)
  | branch (path : TreeNodePath) (links : Nibble → TreeNode Hash)
  | reference (hash : Hash)

namespace TreeNode
variable {Hash : Type*}

def isEmpty : TreeNode Hash → Bool
  | empty => true
  | _ => false

def isBranch : TreeNode Hash → Bool
  | branch .. => true
  | _ => false

def path : TreeNode Hash → TreeNodePath
  | leaf path _ => path
  | branch path _ => path
  | _ => []

def hash (hasher : NodeHasher Hash) : TreeNode Hash → Hash
  | empty => hasher.zero
  | leaf path value => hasher.leaf path value
  | branch path links => hasher.branch path fun i => (links i).hash hasher
  | reference hash => hash

/-- `setPath`; `none` for the empty node, where it throws. -/
def setPath (path : TreeNodePath) : TreeNode Hash → Option (TreeNode Hash)
  | leaf _ value => some (leaf path value)
  | branch _ links => some (branch path links)
  | _ => none

end TreeNode

def noLinks {Hash : Type*} : Nibble → TreeNode Hash := fun _ => .empty

section Links
variable {Hash : Type*}

/-- `setLink` with a node, and `clearLink` with the empty node. -/
def setLink (links : Nibble → TreeNode Hash) (node : TreeNode Hash) (index : Nibble) : Nibble → TreeNode Hash :=
  Function.update links index node

def numLinks (links : Nibble → TreeNode Hash) : Nat := (Finset.univ.filter fun i => !(links i).isEmpty).card

def highestLinkIndex (links : Nibble → TreeNode Hash) : Option Nibble :=
  (List.finRange 16).reverse.find? fun i => !(links i).isEmpty

end Links

def findFirstDifferenceIndex : TreeNodePath → TreeNodePath → Nat
  | a :: lhs, b :: rhs => if a = b then findFirstDifferenceIndex lhs rhs + 1 else 0
  | _, _ => 0

namespace PatriciaTree
variable {Hash : Type*} (hasher : NodeHasher Hash) (source : Hash → TreeNode Hash)

def getLinkedNode (links : Nibble → TreeNode Hash) (index : Nibble) : TreeNode Hash :=
  match links index with
  | .empty => source hasher.zero
  | .reference hash => source hash
  | node => node

def branchLeafNode (leafPath : TreeNodePath) (leafValue : Hash) (path : TreeNodePath) (value : Hash) :
    Option (TreeNode Hash) :=
  let differenceIndex := findFirstDifferenceIndex leafPath path
  match leafPath.drop differenceIndex, path.drop differenceIndex with
  | leafIndex :: leafRest, index :: rest =>
    some (.branch (leafPath.take differenceIndex)
      (setLink (setLink noLinks (.leaf leafRest leafValue) leafIndex) (.leaf rest value) index))
  | _, _ => none

mutual

def set (node : TreeNode Hash) (path : TreeNodePath) (value : Hash) : Option (TreeNode Hash) :=
  match node with
  | .empty => some (.leaf path value)
  | .leaf leafPath leafValue =>
    if leafPath = path then some (.leaf path value) else branchLeafNode leafPath leafValue path value
  | .branch branchPath links =>
    -- a branch path that is shared completely is consumed: the new pair goes to one of the links
    let differenceIndex := findFirstDifferenceIndex branchPath path
    if branchPath ≠ [] ∧ differenceIndex = branchPath.length then
      insertNewPairIntoBranch branchPath links [] 0 (path.drop differenceIndex) value
    else insertNewPairIntoBranch branchPath links branchPath differenceIndex path value
  | .reference _ => none
termination_by 2 * path.length + 1
decreasing_by
  · simp only [List.length_drop]; omega
  · omega

def insertNewPairIntoBranch (nodePath : TreeNodePath) (links : Nibble → TreeNode Hash) (branchPath : TreeNodePath)
    (differenceIndex : Nat) (path : TreeNodePath) (value : Hash) : Option (TreeNode Hash) :=
  match _hpath : path.drop differenceIndex with
  | [] => none
  | index :: rest =>
    let nextNode := if branchPath.isEmpty then getLinkedNode hasher source links index else .empty
    match set nextNode rest value with
    | none => none
    | some updatedNextNode =>
      if branchPath.isEmpty then some (.branch nodePath (setLink links updatedNextNode index))
      else
        match branchPath.drop differenceIndex with
        | [] => none
        | branchLinkIndex :: branchRest =>
          some (.branch (branchPath.take differenceIndex)
            (setLink (setLink noLinks updatedNextNode index) (.branch branchRest links) branchLinkIndex))
termination_by 2 * path.length
decreasing_by
  have hlen := congrArg List.length _hpath
  simp only [List.length_drop, List.length_cons] at hlen
  omega

end

/-- Clears a link; a branch that is left with a single link is merged with the referenced node. -/
def unsetBranchLink (path : TreeNodePath) (links : Nibble → TreeNode Hash) (index : Nibble) : Option (TreeNode Hash) :=
  let links := setLink links .empty index
  if numLinks links ≠ 1 then some (.branch path links)
  else
    match highestLinkIndex links with
    | none => none
    | some lastIndex =>
      let referencedNode := getLinkedNode hasher source links lastIndex
      referencedNode.setPath (path ++ lastIndex :: referencedNode.path)

/-- `unset`: `some none` when the key is not found, else the updated node and `canMerge`. -/
def unset (node : TreeNode Hash) (keyPath : TreeNodePath) : Option (Option (TreeNode Hash × Bool)) :=
  if node.isEmpty then some none
  else
    match _hkey : keyPath.drop (findFirstDifferenceIndex node.path keyPath) with
    | [] => some (some (.empty, true))
    | index :: rest =>
      match node with
      | .branch path links =>
        let nextNode := getLinkedNode hasher source links index
        if nextNode.isEmpty then some none
        else
          match unset nextNode rest with
          | none => none
          | some none => some none
          | some (some (updatedNextNode, canMerge)) =>
            -- at most a single branch is merged, the others only get a new link
            let updatedNode := if canMerge then unsetBranchLink hasher source path links index
              else some (.branch path (setLink links updatedNextNode index))
            updatedNode.map fun updatedNode => some (updatedNode, false)
      | _ => some none
termination_by keyPath.length
decreasing_by
  have hlen := congrArg List.length _hkey
  simp only [List.length_drop, List.length_cons] at hlen
  omega

/-- `lookup`: the value, if it is found, and the nodes visited. -/
def lookup (node : TreeNode Hash) (keyPath : TreeNodePath) : Option (Option Hash × List (TreeNode Hash)) :=
  if node.isEmpty then some (none, [])
  else
    let differenceIndex := findFirstDifferenceIndex node.path keyPath
    match node with
    | .branch _ links =>
      match _hkey : keyPath.drop differenceIndex with
      | [] => none
      | index :: rest =>
        let nextNode := getLinkedNode hasher source links index
        if nextNode.isEmpty then some (none, [node])
        else (lookup nextNode rest).map fun result => (result.1, node :: result.2)
    | .leaf _ value => some (if differenceIndex = keyPath.length then some value else none, [node])
    | _ => none
termination_by keyPath.length
decreasing_by
  have hlen := congrArg List.length _hkey
  simp only [List.length_drop, List.length_cons] at hlen
  omega

end PatriciaTree
end Catapult.Tree
