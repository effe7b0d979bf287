import Catapult.Lib.Trie
import Catapult.Tree.PatriciaTree

/-!
# Patricia trees refine compact tries

`Denotes hasher store t node` says that `node` is the compact trie `t`, where a link is either a linked
node or a reference to a node of `store`. On nodes that denote compact tries, `set` and `unset` compute
`Trie.insert` and `Trie.erase`, and `lookup` finds what the trie maps the key to. The data source
that is read may have more nodes than `store`.
-/

namespace Catapult.Tree
open Trie
variable {Hash : Type*} {hasher : NodeHasher Hash} {store source : Hash → TreeNode Hash}

def trieHash (hasher : NodeHasher Hash) : Trie Nibble Hash → Hash
  | .empty => hasher.zero
  | .leaf path value => hasher.leaf path value
  | .branch path children => hasher.branch path fun i => trieHash hasher (children i)

/-- The node is the trie, with references to nodes of `store`. -/
def Denotes (hasher : NodeHasher Hash) (store : Hash → TreeNode Hash) : Trie Nibble Hash → TreeNode Hash → Prop
  | .empty, node => node = .empty
  | .leaf path value, node => node = .leaf path value
  | .branch path children, node => ∃ links, node = .branch path links ∧ ∀ i,
      Denotes hasher store (children i) (links i) ∨
      (children i ≠ .empty ∧ links i = .reference (trieHash hasher (children i)) ∧
        Denotes hasher store (children i) (store (trieHash hasher (children i))))

/-- A link that is the trie `t`. -/
def LinkDenotes (hasher : NodeHasher Hash) (store : Hash → TreeNode Hash) (t : Trie Nibble Hash)
    (link : TreeNode Hash) : Prop :=
  Denotes hasher store t link ∨
    (t ≠ .empty ∧ link = .reference (trieHash hasher t) ∧ Denotes hasher store t (store (trieHash hasher t)))

/-- Every node of `store` is in `source`. -/
def Extends (store source : Hash → TreeNode Hash) : Prop := ∀ hash, store hash ≠ .empty → source hash = store hash

namespace Denotes
variable {t : Trie Nibble Hash} {node : TreeNode Hash} {path : TreeNodePath} {children : Nibble → Trie Nibble Hash}
  {links : Nibble → TreeNode Hash}

theorem hash_eq (h : Denotes hasher store t node) : node.hash hasher = trieHash hasher t := by
  induction t generalizing node with
  | empty => rw [show node = .empty from h]; rfl
  | leaf path value => rw [show node = .leaf path value from h]; rfl
  | branch path children ih =>
    obtain ⟨links, rfl, hlinks⟩ := h
    rw [TreeNode.hash, trieHash]
    congr 1
    funext i
    rcases hlinks i with hi | ⟨-, hi, -⟩
    · exact ih i hi
    · rw [hi]; rfl

theorem isEmpty_iff (h : Denotes hasher store t node) : node.isEmpty = true ↔ t = .empty := by
  cases t with
  | empty => rw [show node = .empty from h]; simp [TreeNode.isEmpty]
  | leaf path value => rw [show node = .leaf path value from h]; simp [TreeNode.isEmpty]
  | branch path children =>
    obtain ⟨links, rfl, -⟩ := h
    simp [TreeNode.isEmpty]

theorem ne_empty (h : Denotes hasher store t node) (ht : t ≠ .empty) : node ≠ .empty := by
  rintro rfl
  exact ht (h.isEmpty_iff.1 rfl)

theorem mono (h : Denotes hasher store t node) (hle : Extends store source) : Denotes hasher source t node := by
  induction t generalizing node with
  | empty => exact h
  | leaf path value => exact h
  | branch path children ih =>
    obtain ⟨links, rfl, hlinks⟩ := h
    refine ⟨links, rfl, fun i => ?_⟩
    rcases hlinks i with hi | ⟨hne, hi, hd⟩
    · exact .inl (ih i hi)
    · refine .inr ⟨hne, hi, ?_⟩
      rw [hle _ (hd.ne_empty hne)]
      exact ih i hd

theorem of_links (h : ∀ i, LinkDenotes hasher store (children i) (links i)) :
    Denotes hasher store (.branch path children) (.branch path links) :=
  ⟨links, rfl, h⟩

end Denotes

namespace LinkDenotes
variable {t : Trie Nibble Hash} {link : TreeNode Hash} {children : Nibble → Trie Nibble Hash}
  {links : Nibble → TreeNode Hash}

theorem isEmpty_iff (h : LinkDenotes hasher store t link) : link.isEmpty = true ↔ t = .empty := by
  rcases h with h | ⟨hne, rfl, -⟩
  · exact h.isEmpty_iff
  · simp [TreeNode.isEmpty, hne]

theorem hash_eq (h : LinkDenotes hasher store t link) : link.hash hasher = trieHash hasher t := by
  rcases h with h | ⟨-, rfl, -⟩
  · exact Denotes.hash_eq h
  · rfl

theorem update {i : Nibble} {node : TreeNode Hash} (h : ∀ j, LinkDenotes hasher store (children j) (links j))
    (hi : Denotes hasher store t node) (j : Nibble) :
    LinkDenotes hasher store (Function.update children i t j) (setLink links node i j) := by
  by_cases hji : j = i
  · subst hji
    rw [setLink, Function.update_self, Function.update_self]
    exact .inl hi
  · rw [setLink, Function.update_of_ne hji, Function.update_of_ne hji]
    exact h j

end LinkDenotes

/-- The data source has every node of `store`, and no node for the zero hash. -/
structure Readable (hasher : NodeHasher Hash) (store source : Hash → TreeNode Hash) : Prop where
  ext : Extends store source
  zero : source hasher.zero = .empty

namespace PatriciaTree
variable {t : Trie Nibble Hash} {node : TreeNode Hash} {path : TreeNodePath} {children : Nibble → Trie Nibble Hash}
  {links : Nibble → TreeNode Hash} {value : Hash}

theorem getLinkedNode_denotes (hread : Readable hasher store source)
    (h : ∀ i, LinkDenotes hasher store (children i) (links i)) (i : Nibble) :
    Denotes hasher store (children i) (getLinkedNode hasher source links i) := by
  unfold getLinkedNode
  rcases h i with hi | ⟨hne, hi, hd⟩
  · cases hc : children i with
    | empty =>
      rw [hc] at hi
      rw [show links i = .empty from hi, hread.zero]
      rfl
    | leaf path value => rw [hc] at hi; rw [show links i = .leaf path value from hi]; rfl
    | branch path children' =>
      rw [hc] at hi
      obtain ⟨links', hl, hd⟩ := hi
      rw [hl]
      exact ⟨links', rfl, hd⟩
  · rw [hi]
    simp only
    rw [hread.ext _ (hd.ne_empty hne)]
    exact hd

theorem findFirstDifferenceIndex_eq (p k : TreeNodePath) :
    findFirstDifferenceIndex p k = (splitCommon p k).1.length := by
  induction p generalizing k with
  | nil => simp [findFirstDifferenceIndex, splitCommon]
  | cons a p ih =>
    cases k with
    | nil => simp [findFirstDifferenceIndex, splitCommon]
    | cons b k =>
      rw [findFirstDifferenceIndex, splitCommon]
      split
      · simp [ih]
      · rfl

theorem findFirstDifferenceIndex_append (p k : TreeNodePath) : findFirstDifferenceIndex p (p ++ k) = p.length := by
  simp [findFirstDifferenceIndex_eq]

theorem findFirstDifferenceIndex_fork (q p' k' : TreeNodePath) {a b : Nibble} (hab : a ≠ b) :
    findFirstDifferenceIndex (q ++ a :: p') (q ++ b :: k') = q.length := by
  induction q with
  | nil => simp [findFirstDifferenceIndex, hab]
  | cons x q ih => simp [findFirstDifferenceIndex, ih]

theorem set_branch (links : Nibble → TreeNode Hash) (p : TreeNodePath) (i : Nibble) (r : TreeNodePath) (value : Hash) :
    set hasher source (.branch p links) (p ++ i :: r) value =
      (set hasher source (getLinkedNode hasher source links i) r value).map fun next =>
        .branch p (setLink links next i) := by
  have hinsert : insertNewPairIntoBranch hasher source p links [] 0 (i :: r) value =
      (set hasher source (getLinkedNode hasher source links i) r value).map fun next =>
        .branch p (setLink links next i) := by
    rw [insertNewPairIntoBranch]
    split
    · rename_i h; cases h
    · rename_i index rest h
      cases h
      simp only [List.isEmpty_nil, if_true]
      cases set hasher source (getLinkedNode hasher source links i) r value <;> rfl
  rw [set, findFirstDifferenceIndex_append]
  cases p with
  | nil => simpa using hinsert
  | cons a p => simpa using hinsert

theorem set_branch_split (links : Nibble → TreeNode Hash) {q p' k' : TreeNodePath} {a b : Nibble}
    (hab : a ≠ b) (value : Hash) :
    set hasher source (.branch (q ++ a :: p') links) (q ++ b :: k') value =
      some (.branch q (setLink (setLink noLinks (.leaf k' value) b) (.branch p' links) a)) := by
  have hd := findFirstDifferenceIndex_fork q p' k' hab
  have hne : ¬ (q ++ a :: p' ≠ [] ∧ q.length = (q ++ a :: p').length) := by simp
  rw [set]
  simp only [hd, if_neg hne]
  rw [insertNewPairIntoBranch]
  have hset : set hasher source .empty k' value = some (.leaf k' value) := by rw [set]
  split
  · rename_i h; simp at h
  · rename_i index rest h
    rw [List.drop_left] at h
    cases h
    simp [hset]

theorem branchLeafNode_split {q p' k' : TreeNodePath} {a b : Nibble} (hab : a ≠ b) (leafValue value : Hash) :
    branchLeafNode (q ++ a :: p') leafValue (q ++ b :: k') value =
      some (.branch q (setLink (setLink noLinks (.leaf p' leafValue) a) (.leaf k' value) b)) := by
  simp [branchLeafNode, findFirstDifferenceIndex_fork q p' k' hab]

theorem denotes_noLinks (i : Nibble) :
    LinkDenotes hasher store ((fun _ => .empty : Nibble → Trie Nibble Hash) i) (noLinks i) :=
  .inl rfl

theorem set_denotes (hread : Readable hasher store source) (h : Denotes hasher store t node)
    (hc : t.Compact path.length) (value : Hash) :
    ∃ node', set hasher source node path value = some node' ∧ Denotes hasher store (t.insert path value) node' := by
  induction t generalizing node path with
  | empty =>
    rw [show node = .empty from h, set]
    exact ⟨_, rfl, rfl⟩
  | leaf p w =>
    have hlen : p.length = path.length := hc.wf (by simp)
    rw [show node = .leaf p w from h, set, Trie.insert]
    rcases splitCommon_cases_of_length_eq hlen with ⟨rfl, hs⟩ | ⟨q, a, p', b, k', hab, rfl, rfl, hs⟩
    · rw [if_pos rfl, hs]
      exact ⟨_, rfl, rfl⟩
    · rw [if_neg (fun he => hab (append_cons_inj.1 he).1), branchLeafNode_split hab, hs]
      refine ⟨_, rfl, Denotes.of_links ?_⟩
      exact LinkDenotes.update (LinkDenotes.update denotes_noLinks rfl) rfl
  | branch p c ih =>
    obtain ⟨links, rfl, hlinks⟩ := h
    have hwf : (Trie.branch p c).WF path.length := hc.wf (by simp)
    rw [Trie.insert]
    rcases hwf.fork_cases with ⟨b, k', rfl, hs⟩ | ⟨q, a, p', b, k', hab, rfl, rfl, hs⟩
    · obtain ⟨next, hnext, hd⟩ := ih b (getLinkedNode_denotes hread hlinks b) (hwf.child rfl)
      rw [set_branch, hnext, hs]
      exact ⟨_, rfl, Denotes.of_links (LinkDenotes.update hlinks hd)⟩
    · rw [set_branch_split links hab, hs]
      refine ⟨_, rfl, Denotes.of_links ?_⟩
      rw [Function.update_comm hab]
      exact LinkDenotes.update (LinkDenotes.update denotes_noLinks rfl) (Denotes.of_links hlinks)

theorem findFirstDifferenceIndex_le (p k : TreeNodePath) : findFirstDifferenceIndex p k ≤ p.length := by
  have hlen := congrArg List.length (splitCommon_append p k).1
  rw [List.length_append] at hlen
  rw [findFirstDifferenceIndex_eq]
  omega

theorem unset_branch {keyPath rest : TreeNodePath} {index : Nibble} (links : Nibble → TreeNode Hash) (p : TreeNodePath)
    (h : keyPath.drop (findFirstDifferenceIndex p keyPath) = index :: rest) :
    unset hasher source (.branch p links) keyPath =
      if (getLinkedNode hasher source links index).isEmpty then some none
      else match unset hasher source (getLinkedNode hasher source links index) rest with
        | none => none
        | some none => some none
        | some (some (next, canMerge)) =>
          (if canMerge then unsetBranchLink hasher source p links index
            else some (.branch p (setLink links next index))).map fun node => some (node, false) := by
  rw [unset]
  simp only [TreeNode.isEmpty, Bool.false_eq_true, if_false]
  split
  · rename_i h'; rw [TreeNode.path, h] at h'; cases h'
  · rename_i i r h'
    rw [TreeNode.path, h] at h'
    cases h'
    rfl

theorem unset_empty (keyPath : TreeNodePath) : unset hasher source .empty keyPath = some none := by
  rw [unset]; rfl

theorem unset_long (hread : Readable hasher store source) (h : Denotes hasher store t node) {m : Nat} (hc : t.Compact m)
    (hlong : m < path.length) : unset hasher source node path = some none := by
  induction t generalizing node path m with
  | empty => rw [show node = .empty from h, unset_empty]
  | leaf p w =>
    have hlen : p.length = m := hc.wf (by simp)
    rw [show node = .leaf p w from h, unset]
    simp only [TreeNode.isEmpty, Bool.false_eq_true, if_false]
    have hle := findFirstDifferenceIndex_le p path
    split
    · rename_i hnil
      have hd := congrArg List.length hnil
      simp only [TreeNode.path, List.length_drop, List.length_nil] at hd
      omega
    · rfl
  | branch p c ih =>
    obtain ⟨links, rfl, hlinks⟩ := h
    obtain ⟨d, hd, hchild, -⟩ := hc.wf (by simp)
    have hle := findFirstDifferenceIndex_le p path
    cases hrest : path.drop (findFirstDifferenceIndex p path) with
    | nil =>
      have hlen := congrArg List.length hrest
      rw [List.length_drop, List.length_nil] at hlen
      omega
    | cons index rest =>
      have hlen := congrArg List.length hrest
      rw [List.length_drop, List.length_cons] at hlen
      rw [unset_branch links p hrest, ih index (getLinkedNode_denotes hread hlinks index) (hchild index) (by omega)]
      split <;> rfl

theorem numLinks_eq_one_iff (h : ∀ i, LinkDenotes hasher store (children i) (links i)) :
    numLinks links = 1 ↔ ∃ i, Only children i := by
  have hmem : ∀ i, (!(links i).isEmpty) = true ↔ children i ≠ .empty := fun i => by
    rw [Bool.not_eq_true', ← Bool.not_eq_true, (h i).isEmpty_iff]
  rw [numLinks, Finset.card_eq_one]
  refine exists_congr fun i => ?_
  constructor
  · intro heq
    have hiff : ∀ j, children j ≠ .empty ↔ j = i := fun j => by
      have hj := Finset.ext_iff.1 heq j
      rwa [Finset.mem_filter, Finset.mem_singleton, hmem, and_iff_right (Finset.mem_univ j)] at hj
    exact ⟨(hiff i).2 rfl, fun j => (hiff j).1⟩
  · rintro ⟨hi, honly⟩
    ext j
    rw [Finset.mem_filter, Finset.mem_singleton, hmem]
    exact ⟨fun hj => honly j hj.2, fun hj => ⟨Finset.mem_univ j, hj ▸ hi⟩⟩

theorem highestLinkIndex_of_only (h : ∀ i, LinkDenotes hasher store (children i) (links i)) {i : Nibble}
    (hi : Only children i) : highestLinkIndex links = some i := by
  have hmem : ∀ j, (!(links j).isEmpty) = true ↔ children j ≠ .empty := fun j => by
    rw [Bool.not_eq_true', ← Bool.not_eq_true, (h j).isEmpty_iff]
  cases hfind : highestLinkIndex links with
  | none =>
    have hno := List.find?_eq_none.1 hfind i (by simp)
    rw [hmem] at hno
    exact (hno hi.1).elim
  | some j =>
    have hj : (!(links j).isEmpty) = true := List.find?_some (p := fun i => !(links i).isEmpty) hfind
    rw [hi.2 j ((hmem j).1 hj)]

theorem unsetBranchLink_denotes (hread : Readable hasher store source)
    (h : ∀ i, LinkDenotes hasher store (children i) (links i)) (path : TreeNodePath) (index : Nibble) :
    ∃ node', unsetBranchLink hasher source path links index = some node' ∧
      Denotes hasher store (collapse path (Function.update children index .empty)) node' := by
  have hcleared : ∀ j, LinkDenotes hasher store (Function.update children index .empty j)
      (setLink links .empty index j) :=
    LinkDenotes.update h rfl
  unfold unsetBranchLink
  by_cases hone : numLinks (setLink links .empty index) = 1
  · obtain ⟨i, hi⟩ := (numLinks_eq_one_iff hcleared).1 hone
    have hd := getLinkedNode_denotes hread hcleared i
    simp only [hone, ne_eq, not_true_eq_false, if_false, highestLinkIndex_of_only hcleared hi]
    rw [collapse_of_only hi]
    cases hchild : Function.update children index .empty i with
    | empty => exact absurd hchild hi.1
    | leaf r w =>
      rw [hchild] at hd
      rw [show getLinkedNode hasher source (setLink links .empty index) i = .leaf r w from hd]
      exact ⟨_, rfl, rfl⟩
    | branch r c =>
      rw [hchild] at hd
      obtain ⟨links', heq, hlinks'⟩ := hd
      rw [heq]
      exact ⟨_, rfl, Denotes.of_links hlinks'⟩
  · simp only [ne_eq, hone, not_false_eq_true, if_true]
    refine ⟨_, rfl, ?_⟩
    rw [collapse, dif_neg fun hex => hone ((numLinks_eq_one_iff hcleared).2 hex)]
    exact Denotes.of_links hcleared

variable (hasher source) in
theorem unset_leaf_cases {p : TreeNodePath} (w : Hash) (hlen : p.length = path.length) :
    ((Trie.leaf p w).lookup path = none ∧ unset hasher source (.leaf p w) path = some none) ∨
      ((Trie.leaf p w).lookup path ≠ none ∧ unset hasher source (.leaf p w) path = some (some (.empty, true)) ∧
        (Trie.leaf p w).erase path = .empty) := by
  rw [lookup_leaf, unset, Trie.erase]
  simp only [TreeNode.isEmpty, Bool.false_eq_true, if_false]
  rcases splitCommon_cases_of_length_eq hlen with ⟨rfl, hs⟩ | ⟨q, a, p', b, k', hab, rfl, rfl, hs⟩
  · right
    rw [if_pos rfl, if_pos rfl]
    refine ⟨by simp, ?_, rfl⟩
    split
    · rfl
    · rename_i hcons
      rw [TreeNode.path, findFirstDifferenceIndex_eq, hs, List.drop_length] at hcons
      cases hcons
  · left
    have hne : q ++ b :: k' ≠ q ++ a :: p' := fun he => hab (append_cons_inj.1 he).1.symm
    refine ⟨if_neg hne, ?_⟩
    split
    · rename_i hnil
      rw [TreeNode.path, findFirstDifferenceIndex_eq, hs] at hnil
      simp at hnil
    · rfl

theorem erase_child_denotes {p : TreeNodePath} {m : Nat} (hread : Readable hasher store source)
    (hlinks : ∀ i, LinkDenotes hasher store (children i) (links i)) (hwf : (Trie.branch p children).WF m) {i : Nibble}
    {rest : TreeNodePath} {next : TreeNode Hash} {canMerge : Bool}
    (hnext : Denotes hasher store ((children i).erase rest) next)
    (hmerge : canMerge = true ↔ (children i).erase rest = .empty) :
    ∃ node', (if canMerge then unsetBranchLink hasher source p links i else some (.branch p (setLink links next i))) =
        some node' ∧
      Denotes hasher store (collapse p (Function.update children i ((children i).erase rest))) node' := by
  cases canMerge with
  | true =>
    rw [if_pos rfl, hmerge.1 rfl]
    exact unsetBranchLink_denotes hread hlinks p i
  | false =>
    have hleft : (children i).erase rest ≠ .empty := fun he => by simpa using hmerge.2 he
    have hkeep : ∀ z, children z ≠ .empty → Function.update children i ((children i).erase rest) z ≠ .empty := by
      intro z hz
      by_cases hzi : z = i
      · subst hzi
        rwa [Function.update_self]
      · rwa [Function.update_of_ne hzi]
    obtain ⟨_, -, -, x, y, hxy, hx, hy⟩ := hwf
    rw [collapse_of_two hxy (hkeep x hx) (hkeep y hy)]
    exact ⟨_, rfl, Denotes.of_links (LinkDenotes.update hlinks hnext)⟩

theorem branch_cases {p : TreeNodePath} {c : Nibble → Trie Nibble Hash} (hwf : (Trie.branch p c).WF path.length) :
    (∃ i k', path = p ++ i :: k' ∧ path.drop (findFirstDifferenceIndex p path) = i :: k') ∨
      (Trie.branch p c).lookup path = none ∧ ∃ i k', path.drop (findFirstDifferenceIndex p path) = i :: k' ∧
        ∃ m < k'.length, ∀ i, (c i).Compact m := by
  rcases hwf.fork_cases with ⟨i, k', rfl, hs⟩ | ⟨q, a, p', b, k', hab, rfl, rfl, hs⟩
  · exact .inl ⟨i, k', rfl, by rw [findFirstDifferenceIndex_append, List.drop_left]⟩
  · obtain ⟨m, hlen, hchild, -⟩ := hwf
    refine .inr ⟨lookup_branch_eq_none fun i r he => ?_, b, k', ?_, m, ?_, hchild⟩
    · rw [List.append_assoc, List.cons_append] at he
      exact hab (append_cons_inj.1 he).1.symm
    · rw [findFirstDifferenceIndex_eq, hs, List.drop_left]
    · simp only [List.length_append, List.length_cons] at hlen
      omega

theorem unset_denotes (hread : Readable hasher store source) (h : Denotes hasher store t node)
    (hc : t.Compact path.length) :
    (t.lookup path = none ∧ unset hasher source node path = some none) ∨
      (t.lookup path ≠ none ∧ ∃ node' canMerge, unset hasher source node path = some (some (node', canMerge)) ∧
        Denotes hasher store (t.erase path) node' ∧ (canMerge = true ↔ t.erase path = .empty)) := by
  induction t generalizing node path with
  | empty => exact .inl ⟨rfl, by rw [show node = .empty from h, unset_empty]⟩
  | leaf p w =>
    rw [show node = .leaf p w from h]
    rcases unset_leaf_cases hasher source w (hc.wf (by simp)) with hnone | ⟨hsome, hunset, herase⟩
    · exact .inl hnone
    · rw [herase]
      exact .inr ⟨hsome, .empty, true, hunset, rfl, by simp⟩
  | branch p c ih =>
    obtain ⟨links, rfl, hlinks⟩ := h
    have hwf : (Trie.branch p c).WF path.length := hc.wf (by simp)
    rcases branch_cases hwf with ⟨i, k', rfl, hdrop⟩ | ⟨hnone, i, k', hdrop, m, hlong, hchild⟩
    · have hd := getLinkedNode_denotes hread hlinks i
      rw [lookup_branch, erase_branch, unset_branch links p hdrop]
      rcases ih i hd (hwf.child rfl) with ⟨hnone, hunset⟩ | ⟨hsome, next, canMerge, hunset, hnext, hmerge⟩
      · left
        refine ⟨hnone, ?_⟩
        rw [hunset]
        split <;> rfl
      · right
        have hne : ¬ (getLinkedNode hasher source links i).isEmpty = true := by
          rw [hd.isEmpty_iff]
          intro he
          rw [he] at hsome
          exact hsome rfl
        have hleft := hwf.erase_ne_empty (p ++ i :: k')
        rw [erase_branch] at hleft
        obtain ⟨node', hnode', hd'⟩ := erase_child_denotes hread hlinks hwf hnext hmerge
        refine ⟨hsome, node', false, ?_, hd', by simpa using hleft⟩
        rw [if_neg hne, hunset]
        simp only [hnode', Option.map_some]
    · -- the search goes on below a path that the key does not share, with a key that is too long there
      refine .inl ⟨hnone, ?_⟩
      rw [unset_branch links _ hdrop, unset_long hread (getLinkedNode_denotes hread hlinks i) (hchild i) hlong]
      split <;> rfl

theorem lookup_branch_node {keyPath rest : TreeNodePath} {index : Nibble} (links : Nibble → TreeNode Hash)
    (p : TreeNodePath) (h : keyPath.drop (findFirstDifferenceIndex p keyPath) = index :: rest) :
    lookup hasher source (.branch p links) keyPath =
      if (getLinkedNode hasher source links index).isEmpty then some (none, [.branch p links])
      else (lookup hasher source (getLinkedNode hasher source links index) rest).map fun result =>
        (result.1, .branch p links :: result.2) := by
  rw [lookup]
  simp only [TreeNode.isEmpty, TreeNode.path, Bool.false_eq_true, if_false]
  split
  · rename_i h'; rw [h] at h'; cases h'
  · rename_i i r h'
    rw [h] at h'
    cases h'
    rfl

theorem lookup_empty_node (keyPath : TreeNodePath) : lookup hasher source .empty keyPath = some (none, []) := by
  rw [lookup]; rfl

theorem lookup_leaf_node (p : TreeNodePath) (w : Hash) (keyPath : TreeNodePath) :
    lookup hasher source (.leaf p w) keyPath =
      some (if findFirstDifferenceIndex p keyPath = keyPath.length then some w else none, [.leaf p w]) := by
  rw [lookup]; rfl

theorem lookup_long (hread : Readable hasher store source) (h : Denotes hasher store t node) {m : Nat}
    (hc : t.Compact m) (hlong : m < path.length) :
    ∃ nodePath, lookup hasher source node path = some (none, nodePath) := by
  induction t generalizing node path m with
  | empty => exact ⟨[], by rw [show node = .empty from h, lookup_empty_node]⟩
  | leaf p w =>
    have hlen : p.length = m := hc.wf (by simp)
    have hle := findFirstDifferenceIndex_le p path
    rw [show node = .leaf p w from h, lookup_leaf_node, if_neg (by omega)]
    exact ⟨_, rfl⟩
  | branch p c ih =>
    obtain ⟨links, rfl, hlinks⟩ := h
    obtain ⟨d, hd, hchild, -⟩ := hc.wf (by simp)
    have hle := findFirstDifferenceIndex_le p path
    cases hrest : path.drop (findFirstDifferenceIndex p path) with
    | nil =>
      have hlen := congrArg List.length hrest
      rw [List.length_drop, List.length_nil] at hlen
      omega
    | cons index rest =>
      have hlen := congrArg List.length hrest
      rw [List.length_drop, List.length_cons] at hlen
      obtain ⟨nodePath, hlookup⟩ := ih index (getLinkedNode_denotes hread hlinks index) (hchild index)
        (show d < rest.length by omega)
      rw [lookup_branch_node links p hrest, hlookup]
      split
      · exact ⟨_, rfl⟩
      · exact ⟨_, rfl⟩

theorem lookup_denotes (hread : Readable hasher store source) (h : Denotes hasher store t node)
    (hc : t.Compact path.length) :
    ∃ nodePath, lookup hasher source node path = some (t.lookup path, nodePath) := by
  induction t generalizing node path with
  | empty => exact ⟨[], by rw [show node = .empty from h, lookup_empty_node]; rfl⟩
  | leaf p w =>
    have hlen : p.length = path.length := hc.wf (by simp)
    rw [show node = .leaf p w from h, lookup_leaf_node, lookup_leaf]
    rcases splitCommon_cases_of_length_eq hlen with ⟨rfl, hs⟩ | ⟨q, a, p', b, k', hab, rfl, rfl, hs⟩
    · rw [findFirstDifferenceIndex_eq, hs, if_pos rfl, if_pos rfl]
      exact ⟨_, rfl⟩
    · have hne : q ++ b :: k' ≠ q ++ a :: p' := fun he => hab (append_cons_inj.1 he).1.symm
      rw [findFirstDifferenceIndex_eq, hs, if_neg (by simp), if_neg hne]
      exact ⟨_, rfl⟩
  | branch p c ih =>
    obtain ⟨links, rfl, hlinks⟩ := h
    have hwf : (Trie.branch p c).WF path.length := hc.wf (by simp)
    rcases branch_cases hwf with ⟨i, k', rfl, hdrop⟩ | ⟨hnone, i, k', hdrop, m, hlong, hchild⟩
    · have hd := getLinkedNode_denotes hread hlinks i
      obtain ⟨nodePath, hlookup⟩ := ih i hd (hwf.child rfl)
      rw [lookup_branch, lookup_branch_node links p hdrop, hlookup]
      split
      · rename_i hempty
        rw [hd.isEmpty_iff.1 hempty]
        exact ⟨_, rfl⟩
      · exact ⟨_, rfl⟩
    · obtain ⟨nodePath, hlookup⟩ := lookup_long hread (getLinkedNode_denotes hread hlinks i) (hchild i) hlong
      rw [hnone, lookup_branch_node links _ hdrop, hlookup]
      split
      · exact ⟨_, rfl⟩
      · exact ⟨_, rfl⟩

end PatriciaTree
end Catapult.Tree
