import Catapult.Sdk.StateProof

/-!
# Proofs of absence in the sdks

For a key that is not mapped, the client sends the nodes that its lookup visits (`Visited`). The lookup ends with
nothing in the empty tree, at a leaf with another path or at a link that is not set.

The sdks accept a proof of absence that ends with a branch, when the key starts with the assembled path and goes on
with a nibble without link. An accepted proof is true: a mapped key that starts with the assembled path takes the
links of the proof, however they are ordered. But most of the proofs that the client sends are not accepted
(`Refutable`).
-/

namespace Catapult.Sdk
open Catapult.Tree

inductive Visited (hasher : NodeHasher Hash256) : Trie Nibble Hash256 → TreeNodePath → List Node → Prop
  | empty {key : TreeNodePath} : Visited hasher .empty key []
  | leaf {path : PatriciaTreePath} {value : Hash256} {key : TreeNodePath} :
      Visited hasher (.leaf path.hexPath value) key [.leaf path value]
  | noLink {path : PatriciaTreePath} {children : Nibble → Trie Nibble Hash256} {key rest : TreeNodePath} {i : Nibble}
      (hkey : key.drop (findFirstDifferenceIndex path.hexPath key) = i :: rest) (hempty : children i = .empty) :
      Visited hasher (.branch path.hexPath children) key [.branch path fun j => childLink hasher (children j)]
  | branch {path : PatriciaTreePath} {children : Nibble → Trie Nibble Hash256} {key rest : TreeNodePath} {i : Nibble}
      {nodes : List Node} (hkey : key.drop (findFirstDifferenceIndex path.hexPath key) = i :: rest)
      (hne : children i ≠ .empty) (h : Visited hasher (children i) rest nodes) :
      Visited hasher (.branch path.hexPath children) key
        (.branch path (fun j => childLink hasher (children j)) :: nodes)

/-- `j` is the index of the first link with the hash of the child `i`. -/
def FirstLink (hasher : NodeHasher Hash256) (children : Nibble → Trie Nibble Hash256) (i j : Nibble) : Prop :=
  findLinkIndex (fun k => childLink hasher (children k)) (trieHash hasher (children i)) = some j

/-- The absence of a key can be proved to the sdks. The lookup takes the nibbles of `key`. What is left of the key
for the sdks is `proved`: at every branch but the last it goes on with the index of the link and then the path,
and at the last one with the path and a nibble without link. -/
def Refutable (hasher : NodeHasher Hash256) : Trie Nibble Hash256 → TreeNodePath → TreeNodePath → Prop
  | .branch path children, key, proved => ∃ i rest, key.drop (findFirstDifferenceIndex path key) = i :: rest ∧
      ((children i = .empty ∧ ∃ j rest', proved = path ++ j :: rest' ∧ children j = .empty) ∨
        (children i ≠ .empty ∧ ∃ j rest', proved = j :: (path ++ rest') ∧ FirstLink hasher children i j ∧
          Refutable hasher (children i) rest rest'))
  | _, _, _ => False

section Proof
variable {sha3 : List UInt8 → Hash256} {t : Trie Nibble Hash256} {key proved : TreeNodePath} {nodes : List Node}

theorem lookup_visited {hasher : NodeHasher Hash256} {store source : Hash256 → TreeNode Hash256}
    {node : TreeNode Hash256} {value : Option Hash256} {nodePath : List (TreeNode Hash256)} {n : Nat}
    (hread : Readable hasher store source) (h : Denotes hasher store t node) (hcompact : t.Compact n)
    (hlookup : PatriciaTree.lookup hasher source node key = some (value, nodePath)) :
    ∃ nodes, nodePath.mapM (sdkNode hasher) = some nodes ∧ (∀ n' ∈ nodePath, n'.path.length ≤ n) ∧
      Visited hasher t key nodes := by
  induction t generalizing node key n nodePath with
  | empty =>
    rw [show node = .empty from h, PatriciaTree.lookup_empty_node] at hlookup
    cases hlookup
    exact ⟨[], rfl, by simp, .empty⟩
  | leaf p w =>
    have hlen : p.length = n := hcompact.wf (by simp)
    rw [show node = .leaf p w from h, PatriciaTree.lookup_leaf_node] at hlookup
    cases hlookup
    refine ⟨[.leaf (sdkPath p) w], rfl, by simp [TreeNode.path, hlen], ?_⟩
    have hvisited : Visited hasher (.leaf (sdkPath p).hexPath w) key [.leaf (sdkPath p) w] := .leaf
    rwa [hexPath_sdkPath] at hvisited
  | branch p c ih =>
    obtain ⟨links, rfl, hlinks⟩ := h
    obtain ⟨m, hlen, hchild, -⟩ := hcompact.wf (by simp)
    have hsdk := sdkLinks_eq hlinks
    cases hkey : key.drop (findFirstDifferenceIndex p key) with
    | nil =>
      rw [PatriciaTree.lookup] at hlookup
      simp only [TreeNode.isEmpty, TreeNode.path, Bool.false_eq_true, if_false] at hlookup
      split at hlookup
      · cases hlookup
      · rename_i index rest hcons
        rw [hkey] at hcons
        cases hcons
    | cons i rest =>
      have hd := PatriciaTree.getLinkedNode_denotes hread hlinks i
      have hpath := hexPath_sdkPath p
      have hkey' : key.drop (findFirstDifferenceIndex (sdkPath p).hexPath key) = i :: rest := by rwa [hpath]
      rw [PatriciaTree.lookup_branch_node links p hkey] at hlookup
      split at hlookup
      · rename_i hempty
        cases hlookup
        have hvisited : Visited hasher _ _ _ := .noLink hkey' (hd.isEmpty_iff.1 hempty)
        rw [hpath, ← hsdk] at hvisited
        refine ⟨_, rfl, ?_, hvisited⟩
        simp only [List.mem_singleton, forall_eq, TreeNode.path]
        omega
      · rename_i hne
        obtain ⟨⟨value', rest'⟩, hrest, heq⟩ := Option.map_eq_some_iff.1 hlookup
        cases heq
        obtain ⟨nodes, hmap, hlen', hnodes⟩ := ih i hd (hchild i) hrest
        have hvisited := Visited.branch hkey' (fun he => hne (hd.isEmpty_iff.2 he)) hnodes
        rw [hpath, ← hsdk] at hvisited
        refine ⟨.branch (sdkPath p) (sdkLinks hasher links) :: nodes, ?_, ?_, hvisited⟩
        · rw [List.mapM_cons, hmap]
          rfl
        · intro n' hn'
          rcases List.mem_cons.1 hn' with rfl | hn'
          · simp only [TreeNode.path]
            omega
          · have hle := hlen' n' hn'
            omega

/-- The loop assembles the start of a path that goes on with a nibble for which the last node has no link. -/
def RunsIntoGap (sha3 : List UInt8 → Hash256) (nodes : List Node) (proved : TreeNodePath) : Prop :=
  ∃ hash actual path links j rest, actualPath sha3 nodes = .ok (hash, actual) ∧
    nodes.getLast? = some (.branch path links) ∧ proved = actual ++ j :: rest ∧ links j = none

theorem getNibbleAt_eq {bytes : List UInt8} {actual rest : TreeNodePath} {j : Nibble}
    (h : treeNodePath bytes = actual ++ j :: rest) : actual.length < 2 * bytes.length ∧
      getNibbleAt bytes actual.length = j := by
  have hlength := congrArg List.length h
  rw [length_treeNodePath, List.length_append, List.length_cons] at hlength
  have hlt : actual.length < 2 * bytes.length := by omega
  have hget := getElem?_treeNodePath hlt
  rw [h, List.getElem?_append_right (Nat.le_refl _), Nat.sub_self, List.getElem?_cons_zero, Option.some.injEq] at hget
  exact ⟨hlt, hget.symm⟩

theorem proveNegative_eq_validNegative {encodedKey : Hash256} {path : PatriciaTreePath}
    {links : Nibble → Option Hash256} (hlast : nodes.getLast? = some (.branch path links)) :
    proveNegative sha3 encodedKey nodes links = some .validNegative ↔
      RunsIntoGap sha3 nodes (treeNodePath encodedKey.bytes) := by
  cases hactual : actualPath sha3 nodes with
  | error e =>
    simp only [proveNegative, RunsIntoGap, hactual]
    constructor
    · intro he
      rcases actualPath_eq_error hactual with rfl | rfl <;> cases he
    · rintro ⟨_, _, _, _, _, _, hok, -⟩
      cases hok
  | ok state =>
    obtain ⟨hash, actual⟩ := state
    simp only [proveNegative, hactual]
    constructor
    · intro h
      split_ifs at h with hpath hlt hlink
      · cases h
      · cases h
      · simp only [Bool.not_eq_true', Bool.not_eq_false, List.isPrefixOf_iff_prefix] at hpath
        obtain ⟨rest, hrest⟩ := hpath
        have hlength := congrArg List.length hrest
        rw [length_treeNodePath, List.length_append] at hlength
        cases rest with
        | nil =>
          rw [List.length_nil] at hlength
          omega
        | cons j rest =>
          rw [(getNibbleAt_eq hrest.symm).2, Option.not_isSome_iff_eq_none] at hlink
          exact ⟨hash, actual, path, links, j, rest, hactual, hlast, hrest.symm, hlink⟩
    · rintro ⟨_, _, _, _, j, rest, hok, hlast', hkey, hlink⟩
      rw [hactual] at hok
      rw [hlast] at hlast'
      cases hok
      cases hlast'
      obtain ⟨hlt, hnibble⟩ := getNibbleAt_eq hkey
      have hpath : actual.isPrefixOf (treeNodePath encodedKey.bytes) = true :=
        List.isPrefixOf_iff_prefix.2 ⟨_, hkey.symm⟩
      simp [hpath, hlt, hnibble, hlink]

theorem provePatriciaMerkle_eq_validNegative {encodedKey value stateHash : Hash256} {roots : List Hash256} :
    provePatriciaMerkle sha3 encodedKey value nodes stateHash roots = some .validNegative ↔
      checkStateHash sha3 stateHash roots = true ∧ (∃ root ∈ roots, headHash sha3 nodes = some root) ∧
        RunsIntoGap sha3 nodes (treeNodePath encodedKey.bytes) := by
  cases hstate : checkStateHash sha3 stateHash roots with
  | false => simp [provePatriciaMerkle, hstate]
  | true =>
    cases nodes with
    | nil => simp [provePatriciaMerkle, hstate, headHash]
    | cons node nodes =>
      obtain ⟨last, hlast⟩ : ∃ last, (node :: nodes).getLast? = some last := ⟨_, List.getLast?_cons⟩
      by_cases hroot : node.calculateHash sha3 ∈ roots
      · cases last with
        | leaf path leafValue =>
          have hne : provePositive sha3 encodedKey (node :: nodes) ≠ some .validNegative := by
            rw [provePositive]
            split
            · rename_i hactual
              rcases actualPath_eq_error hactual with rfl | rfl <;> simp
            · split <;> simp
          have hnot : ¬RunsIntoGap sha3 (node :: nodes) (treeNodePath encodedKey.bytes) := by
            rintro ⟨_, _, _, _, _, _, -, hbranch, -⟩
            rw [hlast] at hbranch
            cases hbranch
          simp only [provePatriciaMerkle, hstate, List.head?_cons, hlast, hroot, hnot, and_false, iff_false]
          simp only [Bool.not_true, Bool.false_eq_true, if_false, not_true_eq_false]
          split
          · simp
          · exact hne
        | branch path links =>
          simp [provePatriciaMerkle, hstate, hlast, hroot, headHash, proveNegative_eq_validNegative hlast]
      · simp [provePatriciaMerkle, hstate, hlast, hroot, headHash]

theorem Visited.headHash_eq (h : Visited (sha3Hasher sha3) t key nodes) (hne : t ≠ .empty) :
    headHash sha3 nodes = some (trieHash (sha3Hasher sha3) t) := by
  cases h with
  | empty => exact absurd rfl hne
  | leaf =>
    rw [headHash, Node.calculateHash, hashInput_leaf]
    rfl
  | noLink hkey hempty =>
    rw [headHash, Node.calculateHash, hashInput_branch]
    simp only [getD_childLink]
    rfl
  | branch hkey hchild h =>
    rw [headHash, Node.calculateHash, hashInput_branch]
    simp only [getD_childLink]
    rfl

theorem childLink_eq_none {hasher : NodeHasher Hash256} : childLink hasher t = none ↔ t = .empty := by
  cases t <;> simp [childLink]

theorem runsIntoGap_cons {path : PatriciaTreePath} {links : Nibble → Option Hash256} {hash : Hash256} {j : Nibble}
    (hhead : headHash sha3 nodes = some hash) (hindex : findLinkIndex links hash = some j) :
    RunsIntoGap sha3 (.branch path links :: nodes) proved ↔
      ∃ rest, proved = j :: (path.hexPath ++ rest) ∧ RunsIntoGap sha3 nodes rest := by
  have hlast : (Node.branch path links :: nodes).getLast? = nodes.getLast? := by
    cases nodes with
    | nil => cases hhead
    | cons node nodes => rw [List.getLast?_cons_cons]
  cases hrest : actualPath sha3 nodes with
  | error e =>
    simp only [RunsIntoGap, actualPath_cons, hrest]
    constructor
    · rintro ⟨_, _, _, _, _, _, hok, -⟩
      cases hok
    · rintro ⟨_, -, _, _, _, _, _, _, hok, -⟩
      cases hok
  | ok state =>
    have hstate := (actualPath_fst hrest).trans hhead
    have hactual : actualPath sha3 (.branch path links :: nodes) =
        .ok (some ((Node.branch path links).calculateHash sha3), j :: (path.hexPath ++ state.2)) := by
      simp only [actualPath_cons_ok hrest, proveStep, hstate, hindex]
    simp only [RunsIntoGap, hactual, hrest, hlast]
    constructor
    · rintro ⟨_, _, path', links', k, rest, hok, hbranch, rfl, hlink⟩
      cases hok
      exact ⟨state.2 ++ k :: rest, by simp, _, _, path', links', k, rest, rfl, hbranch, rfl, hlink⟩
    · rintro ⟨_, rfl, _, _, path', links', k, rest, hok, hbranch, rfl, hlink⟩
      cases hok
      exact ⟨_, _, path', links', k, rest, rfl, hbranch, by simp, hlink⟩

theorem Visited.runsIntoGap_iff (h : Visited (sha3Hasher sha3) t key nodes) :
    RunsIntoGap sha3 nodes proved ↔ Refutable (sha3Hasher sha3) t key proved := by
  induction h generalizing proved with
  | empty =>
    refine ⟨?_, False.elim⟩
    rintro ⟨_, _, _, _, _, _, -, hlast, -⟩
    cases hlast
  | leaf =>
    refine ⟨?_, False.elim⟩
    rintro ⟨_, _, _, _, _, _, -, hlast, -⟩
    cases hlast
  | @noLink path children key rest i hkey hempty =>
    have hactual : actualPath sha3 [.branch path fun j => childLink (sha3Hasher sha3) (children j)] =
        .ok (_, path.hexPath ++ []) := rfl
    simp only [RunsIntoGap, hactual, Refutable, hkey, List.append_nil]
    constructor
    · rintro ⟨_, _, _, _, j, rest', hok, hlast, rfl, hlink⟩
      cases hok
      cases hlast
      exact ⟨i, rest, rfl, .inl ⟨hempty, j, rest', rfl, childLink_eq_none.1 hlink⟩⟩
    · rintro ⟨i', rest', hcons, ⟨-, j, after, rfl, hj⟩ | ⟨hne, -⟩⟩
      · exact ⟨_, _, path, _, j, after, rfl, rfl, rfl, childLink_eq_none.2 hj⟩
      · cases hcons
        exact absurd hempty hne
  | @branch path children key rest i nodes hkey hne h ih =>
    have hlink : childLink (sha3Hasher sha3) (children i) = _ := childLink_of_ne hne
    obtain ⟨j, hj, -⟩ := findLinkIndex_iff (fun j => childLink (sha3Hasher sha3) (children j)) hlink
    rw [runsIntoGap_cons (h.headHash_eq hne) hj]
    simp only [ih, Refutable, hkey, FirstLink]
    constructor
    · rintro ⟨rest', rfl, hrest⟩
      exact ⟨i, rest, rfl, .inr ⟨hne, j, rest', rfl, hj, hrest⟩⟩
    · rintro ⟨i', rest', hcons, ⟨hempty, -⟩ | ⟨-, j', after, rfl, hj', hafter⟩⟩
      · cases hcons
        exact absurd hempty hne
      · cases hcons
        rw [hj] at hj'
        cases hj'
        exact ⟨after, rfl, hafter⟩

def NonzeroOn (sha3 : List UInt8 → Hash256) (t : Trie Nibble Hash256) : Prop :=
  ∀ input ∈ hashInputs sha3 t, sha3 input ≠ Hash256.zero

theorem NonzeroOn.eq_empty (h : NonzeroOn sha3 t) (hzero : trieHash (sha3Hasher sha3) t = Hash256.zero) :
    t = .empty := by
  cases t with
  | empty => rfl
  | leaf path value => exact absurd hzero (h _ rfl)
  | branch path children => exact absurd hzero (h _ (.inl rfl))

theorem NonzeroOn.child {p : TreeNodePath} {children : Nibble → Trie Nibble Hash256}
    (h : NonzeroOn sha3 (.branch p children)) (i : Nibble) : NonzeroOn sha3 (children i) :=
  fun input hinput => h input (.inr ⟨i, hinput⟩)

theorem RunsIntoGap.exists_link {node next : Node} (h : RunsIntoGap sha3 (node :: next :: nodes) proved) :
    ∃ path links j, node = .branch path links ∧ findLinkIndex links (next.calculateHash sha3) = some j := by
  obtain ⟨_, _, _, _, _, _, hactual, -⟩ := h
  cases hrest : actualPath sha3 (next :: nodes) with
  | error e =>
    rw [actualPath_cons, hrest] at hactual
    cases hactual
  | ok state =>
    rw [actualPath_cons_ok hrest, proveStep, actualPath_fst hrest] at hactual
    cases node with
    | leaf path value => cases hactual
    | branch path links =>
      simp only [headHash] at hactual
      cases hfind : findLinkIndex links (next.calculateHash sha3) with
      | none =>
        simp only [hfind] at hactual
        cases hactual
      | some j => exact ⟨path, links, j, rfl, hfind⟩

theorem RunsIntoGap.lookup_eq_none (h : RunsIntoGap sha3 nodes proved) (hfree : CollisionFreeOn sha3 t nodes)
    (hzero : NonzeroOn sha3 t) (hhead : headHash sha3 nodes = some (trieHash (sha3Hasher sha3) t)) :
    t.lookup proved = none := by
  induction nodes generalizing t proved with
  | nil => cases hhead
  | cons node nodes ih =>
    rw [headHash, Option.some.injEq] at hhead
    cases nodes with
    | nil =>
      obtain ⟨_, _, path, links, j, rest, hactual, hlast, rfl, hlink⟩ := h
      cases hlast
      cases hactual
      obtain ⟨children, rfl, hlinks⟩ := hfree.eq_branch hhead
      have hempty : children j = .empty := by
        apply (hzero.child j).eq_empty
        rw [← hlinks j, hlink, Option.getD_none]
      show (Trie.branch path.hexPath children).lookup (path.hexPath ++ [] ++ j :: rest) = none
      rw [List.append_nil, Trie.lookup_branch, hempty, Trie.lookup_empty]
    | cons next nodes =>
      obtain ⟨path, links, j, rfl, hindex⟩ := h.exists_link
      obtain ⟨children, rfl, hlinks⟩ := hfree.eq_branch hhead
      obtain ⟨rest, rfl, hrest⟩ := (runsIntoGap_cons rfl hindex).1 h
      have hnext : headHash sha3 (next :: nodes) = some (trieHash (sha3Hasher sha3) (children j)) := by
        rw [← hlinks j, findLinkIndex_eq_some hindex]
        rfl
      rcases Trie.lookup_branch_cases path.hexPath children (j :: (path.hexPath ++ rest)) with ⟨i, r, heq⟩ | ⟨-, hnone⟩
      · -- a key of the branch takes the link of the proof
        obtain ⟨⟨rfl, -⟩, rfl⟩ := cons_append_eq_iff.1 heq
        rw [heq, Trie.lookup_branch]
        exact ih hrest (hfree.child j) (hzero.child j) hnext
      · exact hnone

end Proof

section Claim
variable {Key Value : Type*}

theorem lookup_validNegative_iff {sha3 : List UInt8 → Hash256} {encoder : Encoder Key Value Hash256}
    {hsize : encoder.encodedSize = 32} {map : Key → Option Value} {t : Trie Nibble Hash256}
    {store source : Hash256 → TreeNode Hash256} {root : TreeNode Hash256} {roots : List Hash256} {encodedKey : Hash256}
    (ht : TrieOf encoder map t) (hread : Readable (sha3Hasher sha3) store source)
    (hdenotes : Denotes (sha3Hasher sha3) store t root) (hroot : root.hash (sha3Hasher sha3) ∈ roots)
    (hunmapped : ∀ key, encodedKeyOf encoder hsize key = encodedKey → map key = none) (valueHash : Hash256) :
    ∃ nodePath bytes nodes,
      PatriciaTree.lookup (sha3Hasher sha3) source root (treeNodePath encodedKey.bytes) = some (none, nodePath) ∧
      serializeStatePath (sha3Hasher sha3) nodePath = some bytes ∧ deserializePatriciaTreeNodes bytes = some nodes ∧
      (provePatriciaMerkle sha3 encodedKey valueHash nodes (sha3 (roots.flatMap Hash256.bytes)) roots =
          some .validNegative ↔
        Refutable (sha3Hasher sha3) t (treeNodePath encodedKey.bytes) (treeNodePath encodedKey.bytes)) := by
  have hlength : (treeNodePath encodedKey.bytes).length = 64 := by
    rw [length_treeNodePath, encodedKey.size_bytes]
  have hcompact : t.Compact (treeNodePath encodedKey.bytes).length := by
    have hcompact := ht.compact
    rw [hsize] at hcompact
    rwa [hlength]
  have hnone : t.lookup (treeNodePath encodedKey.bytes) = none := by
    by_contra hne
    obtain ⟨key, hpath⟩ := ht.exists_key _ hne
    have hbytes : encodedKey.bytes = encoder.encodeKey key := treeNodePath_injective hpath
    have hkey := hunmapped key (Hash256.bytes_injective hbytes.symm)
    rw [hpath, ht.lookup_path, hkey] at hne
    exact hne rfl
  obtain ⟨nodePath, hlookup⟩ := PatriciaTree.lookup_denotes hread hdenotes hcompact
  rw [hnone] at hlookup
  obtain ⟨nodes, hmap, hlen, hvisited⟩ := lookup_visited hread hdenotes hcompact hlookup
  obtain ⟨bytes, hserialize, hdeserialize⟩ := deserialize_serializeStatePath hmap fun node hnode =>
    (hlen node hnode).trans_lt (by omega)
  refine ⟨nodePath, bytes, nodes, hlookup, hserialize, hdeserialize, ?_⟩
  rw [provePatriciaMerkle_eq_validNegative, hvisited.runsIntoGap_iff]
  refine ⟨fun h => h.2.2, fun h => ⟨decide_eq_true rfl, ⟨_, hroot, ?_⟩, h⟩⟩
  rw [hdenotes.hash_eq]
  apply hvisited.headHash_eq
  rintro rfl
  exact h

/-- When proofs of absence hold. The node path that the client sends for a key that is not mapped is accepted
exactly when the key is refutable; an accepted proof of absence is true. -/
theorem validNegative_iff (sha3 : List UInt8 → Hash256) (encoder : Encoder Key Value Hash256)
    (hsize : encoder.encodedSize = 32) (map : Key → Option Value) (t : Trie Nibble Hash256)
    (ht : TrieOf encoder map t) :
    (∀ (store source : Hash256 → TreeNode Hash256) (root : TreeNode Hash256), Readable (sha3Hasher sha3) store source →
      Denotes (sha3Hasher sha3) store t root → ∀ roots : List Hash256, root.hash (sha3Hasher sha3) ∈ roots →
      ∀ encodedKey valueHash : Hash256, (∀ key, encodedKeyOf encoder hsize key = encodedKey → map key = none) →
      ∃ nodePath bytes nodes,
        PatriciaTree.lookup (sha3Hasher sha3) source root (treeNodePath encodedKey.bytes) = some (none, nodePath) ∧
        serializeStatePath (sha3Hasher sha3) nodePath = some bytes ∧ deserializePatriciaTreeNodes bytes = some nodes ∧
        (provePatriciaMerkle sha3 encodedKey valueHash nodes (sha3 (roots.flatMap Hash256.bytes)) roots =
            some .validNegative ↔
          Refutable (sha3Hasher sha3) t (treeNodePath encodedKey.bytes) (treeNodePath encodedKey.bytes))) ∧
    (∀ (encodedKey valueHash : Hash256) (nodes : List Node) (stateHash : Hash256) (roots : List Hash256),
      provePatriciaMerkle sha3 encodedKey valueHash nodes stateHash roots = some .validNegative →
      headHash sha3 nodes = some (trieHash (sha3Hasher sha3) t) → CollisionFreeOn sha3 t nodes → NonzeroOn sha3 t →
      ∀ key, encodedKeyOf encoder hsize key = encodedKey → map key = none) := by
  constructor
  · intro store source root hread hdenotes roots hroot encodedKey valueHash hunmapped
    exact lookup_validNegative_iff ht hread hdenotes hroot hunmapped valueHash
  · intro encodedKey valueHash nodes stateHash roots haccepted hhead hfree hzero key hkey
    have hgap := (provePatriciaMerkle_eq_validNegative.1 haccepted).2.2
    have hpath : treeNodePath encodedKey.bytes = encoder.path key := by
      rw [← hkey]
      rfl
    have hnone := hgap.lookup_eq_none hfree hzero hhead
    rw [hpath, ht.lookup_path, Option.map_eq_none_iff] at hnone
    exact hnone

end Claim

def gapChildren : Nibble → Trie Nibble Hash256 :=
  Function.update (Function.update (fun _ => .empty) 0xB (.leaf (List.replicate 61 0xB) (sampleHash 8 8))) 0xC
    (.leaf (List.replicate 61 0xC) (sampleHash 9 9))

def gapTrie : Trie Nibble Hash256 := .branch [1] (Function.update sampleChildren 2 (.branch [] gapChildren))

theorem trieOf_gapTrie :
    TrieOf hashEncoder (finalMap [.set (sampleHash 0x11 0xAA) (sampleHash 7 7),
      .set (sampleHash 0x12 0xBB) (sampleHash 8 8), .set (sampleHash 0x12 0xCC) (sampleHash 9 9)]) gapTrie :=
  trieOf_sampleTrie.insert (sampleHash 0x12 0xCC) (sampleHash 9 9)

/-- For some hash, the node path of a key is accepted as a proof of its absence. -/
def AbsenceAccepted (operations : List (Operation Hash256 Hash256)) (key : Hash256) : Prop :=
  ∃ (sha3 : List UInt8 → Hash256) (valueHash : Hash256), ∀ root nodePath bytes nodes,
    finalRoot (sha3Hasher sha3) (fun _ => .empty) hashEncoder operations = some root →
    PatriciaTree.lookup (sha3Hasher sha3) (fun _ => .empty) root (hashEncoder.path key) = some (none, nodePath) →
    serializeStatePath (sha3Hasher sha3) nodePath = some bytes → deserializePatriciaTreeNodes bytes = some nodes →
    provePatriciaMerkle sha3 key valueHash nodes (sha3 ([root.hash (sha3Hasher sha3)].flatMap Hash256.bytes))
      [root.hash (sha3Hasher sha3)] = some .validNegative

theorem refutable_of_absenceAccepted {operations : List (Operation Hash256 Hash256)} {key : Hash256}
    {t : Trie Nibble Hash256} (ht : TrieOf hashEncoder (finalMap operations) t) (hkey : finalMap operations key = none)
    (h : AbsenceAccepted operations key) :
    ∃ sha3, Refutable (sha3Hasher sha3) t (hashEncoder.path key) (hashEncoder.path key) := by
  obtain ⟨sha3, valueHash, h⟩ := h
  have hread : Readable (sha3Hasher sha3) (fun _ => .empty) (fun _ => .empty) := ⟨fun _ hne => absurd rfl hne, rfl⟩
  obtain ⟨root, hroot, t', ht', hdenotes⟩ :=
    Represents.run hread ⟨.empty, TrieOf.empty hashEncoder, rfl⟩ operations
  obtain rfl : t' = t := ht'.eq ht
  have hunmapped : ∀ key', encodedKeyOf hashEncoder rfl key' = key → finalMap operations key' = none := by
    rintro key' rfl
    exact hkey
  obtain ⟨nodePath, bytes, nodes, hlookup, hserialize, hdeserialize, hiff⟩ :=
    lookup_validNegative_iff ht hread hdenotes (List.mem_singleton_self _) hunmapped valueHash
  exact ⟨sha3, hiff.1 (h root nodePath bytes nodes hroot hlookup hserialize hdeserialize)⟩

/-- The node path of a key that shares a branch with a leaf is no proof of its absence, and neither is the one of a
key without link behind the branch with a path, whatever the hash is. -/
theorem absence_rejected :
    ¬AbsenceAccepted [.set (sampleHash 0x11 0xAA) (sampleHash 7 7), .set (sampleHash 0x12 0xBB) (sampleHash 8 8)]
        (sampleHash 0x11 0xCC) ∧
      ¬AbsenceAccepted [.set (sampleHash 0x11 0xAA) (sampleHash 7 7), .set (sampleHash 0x12 0xBB) (sampleHash 8 8),
        .set (sampleHash 0x12 0xCC) (sampleHash 9 9)] (sampleHash 0x12 0xDD) := by
  constructor
  · intro h
    obtain ⟨sha3, i, rest, hkey, hcases⟩ := refutable_of_absenceAccepted trieOf_sampleTrie (by decide) h
    cases hkey
    rcases hcases with ⟨hempty, -⟩ | ⟨-, j, rest', -, -, hleaf⟩
    · cases hempty
    · exact hleaf
  · intro h
    obtain ⟨sha3, i, rest, hkey, hcases⟩ := refutable_of_absenceAccepted trieOf_gapTrie (by decide) h
    cases hkey
    rcases hcases with ⟨hempty, -⟩ | ⟨-, j, rest', hproved, -⟩
    · cases hempty
    · -- the key has the path of the root before the index
      cases hproved

def gapProof : List Node := [.branch (sdkPath [1]) fun i => childLink (sha3Hasher leadingBytes) (sampleChildren i)]

theorem accepted_gapProof :
    provePatriciaMerkle leadingBytes (sampleHash 0x13 0xCC) (sampleHash 7 7) gapProof
      (leadingBytes ([trieHash (sha3Hasher leadingBytes) sampleTrie].flatMap Hash256.bytes))
      [trieHash (sha3Hasher leadingBytes) sampleTrie] = some .validNegative := by
  decide +kernel

theorem collisionFreeOn_gapProof : CollisionFreeOn leadingBytes sampleTrie gapProof := by
  have hsub : ∀ node ∈ gapProof, node ∈ sampleProof := by
    intro node hnode
    rw [List.mem_singleton.1 hnode]
    exact List.mem_cons_self
  have hfree := collisionFreeOn_sampleProof
  refine ⟨hfree.injOn.mono ?_, fun node hnode => hfree.ne_zero node (hsub node hnode)⟩
  rintro input (hinput | ⟨node, hnode, rfl⟩)
  · exact .inl hinput
  · exact .inr ⟨node, hsub node hnode, rfl⟩

theorem nonzeroOn_sampleTrie : NonzeroOn leadingBytes sampleTrie := by
  have hall : ∀ input ∈ sampleInputs, leadingBytes input ≠ Hash256.zero := by decide
  rintro input (rfl | ⟨i, hi⟩)
  · exact hall _ List.mem_cons_self
  · exact hall _ (mem_sampleInputs hi)

/-- The third link of the sample tree is not set: the node path of a key that takes it is accepted, and what it says
is true. -/
theorem validNegative_sample :
    (∃ nodePath bytes nodes,
      PatriciaTree.lookup (sha3Hasher leadingBytes) (fun _ => .empty) (ofTrie sampleTrie)
        (treeNodePath (sampleHash 0x13 0xCC).bytes) = some (none, nodePath) ∧
      serializeStatePath (sha3Hasher leadingBytes) nodePath = some bytes ∧
        deserializePatriciaTreeNodes bytes = some nodes ∧
      provePatriciaMerkle leadingBytes (sampleHash 0x13 0xCC) (sampleHash 7 7) nodes
        (leadingBytes ([(ofTrie sampleTrie).hash (sha3Hasher leadingBytes)].flatMap Hash256.bytes))
        [(ofTrie sampleTrie).hash (sha3Hasher leadingBytes)] = some .validNegative) ∧
    finalMap [.set (sampleHash 0x11 0xAA) (sampleHash 7 7), .set (sampleHash 0x12 0xBB) (sampleHash 8 8)]
      (sampleHash 0x13 0xCC) = none := by
  obtain ⟨hcomplete, hsound⟩ := validNegative_iff leadingBytes hashEncoder rfl _ sampleTrie trieOf_sampleTrie
  constructor
  · have hunmapped : ∀ key, encodedKeyOf hashEncoder rfl key = sampleHash 0x13 0xCC →
        finalMap [.set (sampleHash 0x11 0xAA) (sampleHash 7 7), .set (sampleHash 0x12 0xBB) (sampleHash 8 8)]
          key = none := by
      intro key hkey
      obtain rfl : key = sampleHash 0x13 0xCC := hkey
      decide
    obtain ⟨nodePath, bytes, nodes, hlookup, hserialize, hdeserialize, hiff⟩ :=
      hcomplete (fun _ => .empty) (fun _ => .empty) (ofTrie sampleTrie) ⟨fun _ hne => absurd rfl hne, rfl⟩
      (denotes_ofTrie _ _ _) _ (List.mem_singleton_self _) (sampleHash 0x13 0xCC) (sampleHash 7 7) hunmapped
    refine ⟨nodePath, bytes, nodes, hlookup, hserialize, hdeserialize, hiff.2 ?_⟩
    exact ⟨3, List.replicate 62 0xC, rfl, .inl ⟨rfl, 3, List.replicate 62 0xC, rfl, rfl⟩⟩
  · exact hsound _ _ gapProof _ _ accepted_gapProof (by decide +kernel) collisionFreeOn_gapProof nonzeroOn_sampleTrie
      _ rfl

end Catapult.Sdk
