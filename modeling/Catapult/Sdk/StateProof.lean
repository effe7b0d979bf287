import Catapult.Sdk.StatePath

/-!
# State proofs of the client in the sdks

The nodes that the client sends for a key are the nodes of the trie on the path of the key (`ProofOf`). The path that
the sdks assemble from them puts the index of a link before the path of its branch, where the path of the key has it
after: the two agree exactly when the path of the branch is made of the index, and when no lower link has the same
hash.
-/

namespace Catapult.Sdk
open Catapult.Tree

theorem hashInput_leaf (path : PatriciaTreePath) (value : Hash256) :
    (Node.leaf path value).hashInput = leafInput path.hexPath value := by
  rw [Node.hashInput, path.encodePath_eq, leafInput]

theorem hashInput_branch (path : PatriciaTreePath) (links : Nibble → Option Hash256) :
    (Node.branch path links).hashInput = branchInput path.hexPath fun i => (links i).getD Hash256.zero := by
  rw [Node.hashInput, path.encodePath_eq, branchInput]

def headHash (sha3 : List UInt8 → Hash256) : List Node → Option Hash256
  | [] => none
  | node :: _ => some (node.calculateHash sha3)

section Proof
variable {sha3 : List UInt8 → Hash256}

theorem actualPath_cons (node : Node) (nodes : List Node) :
    actualPath sha3 (node :: nodes) = (actualPath sha3 nodes).bind fun state => proveStep sha3 state node := by
  rw [actualPath, actualPath, List.reverse_cons, List.foldlM_append]
  cases (nodes.reverse.foldlM (proveStep sha3) (none, []) : Except (Option PatriciaMerkleProofResult) _) with
  | error e => rfl
  | ok state =>
    show (proveStep sha3 state node >>= pure) = _
    rw [bind_pure]
    rfl

theorem actualPath_cons_ok {nodes : List Node} {state : Option Hash256 × List Nibble}
    (h : actualPath sha3 nodes = .ok state) (node : Node) :
    actualPath sha3 (node :: nodes) = proveStep sha3 state node := by
  rw [actualPath_cons, h]
  rfl

theorem actualPath_fst {nodes : List Node} {state : Option Hash256 × List Nibble}
    (h : actualPath sha3 nodes = .ok state) : state.1 = headHash sha3 nodes := by
  cases nodes with
  | nil =>
    cases h
    rfl
  | cons node nodes =>
    rw [actualPath_cons] at h
    cases hrest : actualPath sha3 nodes with
    | error e => rw [hrest] at h; cases h
    | ok rest =>
      rw [hrest] at h
      change proveStep sha3 rest node = .ok state at h
      rw [proveStep] at h
      split at h
      · cases h
        rfl
      · split at h
        · cases h
        · split at h
          · cases h
          · cases h
            rfl

theorem cons_eq_append_singleton_iff {α : Type*} {j i : α} {p : List α} :
    j :: p = p ++ [i] ↔ j = i ∧ ∀ x ∈ p, x = i := by
  induction p generalizing j with
  | nil => simp
  | cons a p ih =>
    rw [List.cons_append, List.cons.injEq, ih]
    constructor
    · rintro ⟨rfl, rfl, h⟩
      exact ⟨rfl, by simpa using h⟩
    · rintro ⟨rfl, h⟩
      have ha := h a (by simp)
      exact ⟨ha.symm, ha, fun x hx => h x (by simp [hx])⟩

theorem cons_append_eq_iff {α : Type*} {j i : α} {p a r : List α} :
    j :: (p ++ a) = p ++ i :: r ↔ (j = i ∧ ∀ x ∈ p, x = i) ∧ a = r := by
  rw [← cons_eq_append_singleton_iff, ← List.cons_append, show p ++ i :: r = (p ++ [i]) ++ r by simp]
  constructor
  · intro h
    exact List.append_inj h (by simp)
  · rintro ⟨h, rfl⟩
    rw [h]

theorem findLinkIndex_eq_some {links : Nibble → Option Hash256} {hash : Hash256} {i : Nibble}
    (h : findLinkIndex links hash = some i) : links i = some hash := by
  simpa using (Fin.find?_eq_some_iff.1 h).1

theorem findLinkIndex_iff (links : Nibble → Option Hash256) {hash : Hash256} {i : Nibble} (h : links i = some hash) :
    ∃ j, findLinkIndex links hash = some j ∧ (j = i ↔ ∀ k < i, links k ≠ some hash) := by
  have hsome : (findLinkIndex links hash).isSome := Fin.isSome_find?_of_eq_true (decide_eq_true h)
  obtain ⟨j, hj⟩ := Option.isSome_iff_exists.1 hsome
  have hfound := findLinkIndex_eq_some hj
  refine ⟨j, hj, ?_, fun hlower => ?_⟩
  · rintro rfl k hk
    simpa using (Fin.find?_eq_some_iff.1 hj).2 k hk
  · rcases lt_trichotomy j i with hlt | heq | hgt
    · exact absurd hfound (hlower j hlt)
    · exact heq
    · have hnot := (Fin.find?_eq_some_iff.1 hj).2 i hgt
      exact absurd h (by simpa using hnot)

def childLink (hasher : NodeHasher Hash256) : Trie Nibble Hash256 → Option Hash256
  | .empty => none
  | t => some (trieHash hasher t)

theorem childLink_of_ne {hasher : NodeHasher Hash256} {t : Trie Nibble Hash256} (h : t ≠ .empty) :
    childLink hasher t = some (trieHash hasher t) := by
  cases t with
  | empty => exact absurd rfl h
  | leaf path value => rfl
  | branch path children => rfl

theorem getD_childLink (t : Trie Nibble Hash256) :
    (childLink (sha3Hasher sha3) t).getD Hash256.zero = trieHash (sha3Hasher sha3) t := by
  cases t <;> rfl

inductive ProofOf (hasher : NodeHasher Hash256) : Trie Nibble Hash256 → TreeNodePath → Hash256 → List Node → Prop
  | leaf {path : PatriciaTreePath} {value : Hash256} :
      ProofOf hasher (.leaf path.hexPath value) path.hexPath value [.leaf path value]
  | branch {path : PatriciaTreePath} {children : Nibble → Trie Nibble Hash256} {i : Nibble}
      {rest : TreeNodePath} {value : Hash256} {nodes : List Node} (h : ProofOf hasher (children i) rest value nodes) :
      ProofOf hasher (.branch path.hexPath children) (path.hexPath ++ i :: rest) value
        (.branch path (fun j => childLink hasher (children j)) :: nodes)

/-- On the way of the key, the path of every branch is made of the nibble of the link that the key takes, and
no lower link leads to a child with the same hash. -/
def Aligned (hasher : NodeHasher Hash256) : Trie Nibble Hash256 → TreeNodePath → Prop
  | .branch path children, key => ∀ i rest, key = path ++ i :: rest → (∀ nibble ∈ path, nibble = i) ∧
      (∀ j < i, children j ≠ .empty → trieHash hasher (children j) ≠ trieHash hasher (children i)) ∧
        Aligned hasher (children i) rest
  | _, _ => True

theorem aligned_branch {hasher : NodeHasher Hash256} {path : TreeNodePath}
    {children : Nibble → Trie Nibble Hash256} {i : Nibble} {rest : TreeNodePath} :
    Aligned hasher (.branch path children) (path ++ i :: rest) ↔ (∀ nibble ∈ path, nibble = i) ∧
      (∀ j < i, children j ≠ .empty → trieHash hasher (children j) ≠ trieHash hasher (children i)) ∧
      Aligned hasher (children i) rest := by
  constructor
  · intro h
    exact h i rest rfl
  · intro h i' rest' heq
    obtain ⟨rfl, rfl⟩ := Trie.append_cons_inj.1 heq
    exact h

namespace ProofOf
variable {t : Trie Nibble Hash256} {key : TreeNodePath} {value : Hash256} {nodes : List Node}

theorem ne_empty (h : ProofOf (sha3Hasher sha3) t key value nodes) : t ≠ .empty := by
  cases h <;> simp

theorem headHash_eq (h : ProofOf (sha3Hasher sha3) t key value nodes) :
    headHash sha3 nodes = some (trieHash (sha3Hasher sha3) t) := by
  cases h with
  | @leaf path value =>
    rw [headHash, Node.calculateHash, hashInput_leaf]
    rfl
  | @branch path children i rest value nodes h =>
    rw [headHash, Node.calculateHash, hashInput_branch]
    simp only [getD_childLink]
    rfl

theorem getLast_eq (h : ProofOf (sha3Hasher sha3) t key value nodes) :
    ∃ path, nodes.getLast? = some (.leaf path value) := by
  induction h with
  | @leaf path value => exact ⟨path, rfl⟩
  | @branch path children i rest value nodes h ih =>
    obtain ⟨last, hlast⟩ := ih
    refine ⟨last, ?_⟩
    rw [List.getLast?_cons, hlast]
    rfl

theorem actualPath_eq (h : ProofOf (sha3Hasher sha3) t key value nodes) :
    ∃ actual, actualPath sha3 nodes = .ok (some (trieHash (sha3Hasher sha3) t), actual) ∧
      (actual = key ↔ Aligned (sha3Hasher sha3) t key) := by
  induction h with
  | @leaf path value =>
    refine ⟨path.hexPath ++ [], ?_, ?_⟩
    · rw [actualPath_cons]
      show Except.ok (some ((Node.leaf path value).calculateHash sha3), path.hexPath ++ []) = _
      rw [Node.calculateHash, hashInput_leaf]
      rfl
    · rw [List.append_nil]
      exact ⟨fun _ => trivial, fun _ => rfl⟩
  | @branch path children i rest value nodes h ih =>
    obtain ⟨actual, hactual, hiff⟩ := ih
    have hhash := headHash_eq (ProofOf.branch h : ProofOf (sha3Hasher sha3) (.branch path.hexPath children) _ value _)
    obtain ⟨j, hj, hji⟩ := findLinkIndex_iff (fun j => childLink (sha3Hasher sha3) (children j))
      (childLink_of_ne h.ne_empty)
    refine ⟨j :: (path.hexPath ++ actual), ?_, ?_⟩
    · rw [actualPath_cons_ok hactual, proveStep]
      simp only [hj]
      rw [headHash, Option.some.injEq] at hhash
      rw [hhash]
    · have hlower :
          (∀ k < i, childLink (sha3Hasher sha3) (children k) ≠ some (trieHash (sha3Hasher sha3) (children i))) ↔
          ∀ k < i, children k ≠ .empty →
            trieHash (sha3Hasher sha3) (children k) ≠ trieHash (sha3Hasher sha3) (children i) := by
        refine forall_congr' fun k => imp_congr_right fun _ => ?_
        by_cases hk : children k = .empty
        · rw [hk]
          simp [childLink]
        · rw [childLink_of_ne hk]
          simp [hk]
      rw [cons_append_eq_iff, aligned_branch, hji, hlower, hiff]
      tauto

end ProofOf

theorem sdkLinks_eq {hasher : NodeHasher Hash256} {store : Hash256 → TreeNode Hash256}
    {children : Nibble → Trie Nibble Hash256} {links : Nibble → TreeNode Hash256}
    (h : ∀ i, LinkDenotes hasher store (children i) (links i)) :
    sdkLinks hasher links = fun i => childLink hasher (children i) := by
  funext i
  rw [sdkLinks]
  by_cases hi : children i = .empty
  · rw [if_pos ((h i).isEmpty_iff.2 hi), hi]
    rfl
  · rw [if_neg fun he => hi ((h i).isEmpty_iff.1 he), (h i).hash_eq, childLink_of_ne hi]

theorem lookup_proofOf {hasher : NodeHasher Hash256} {store source : Hash256 → TreeNode Hash256}
    {t : Trie Nibble Hash256} {node : TreeNode Hash256} {key : TreeNodePath} {value : Hash256}
    (hread : Readable hasher store source)
    (h : Denotes hasher store t node) (hkey : t.lookup key = some value) :
    ∃ nodePath nodes, PatriciaTree.lookup hasher source node key = some (some value, nodePath) ∧
      nodePath.mapM (sdkNode hasher) = some nodes ∧ (∀ n ∈ nodePath, n.path.length ≤ key.length) ∧
      ProofOf hasher t key value nodes := by
  induction t generalizing node key with
  | empty => cases hkey
  | leaf p w =>
    rw [Trie.lookup_leaf] at hkey
    split at hkey
    · rename_i hpath
      cases hkey
      subst hpath
      have hself := PatriciaTree.findFirstDifferenceIndex_append key []
      rw [List.append_nil] at hself
      refine ⟨[.leaf key value], [.leaf (sdkPath key) value], ?_, rfl, by simp [TreeNode.path], ?_⟩
      · rw [show node = .leaf key value from h, PatriciaTree.lookup_leaf_node, hself, if_pos rfl]
      · have hproof : ProofOf hasher (.leaf (sdkPath key).hexPath value) (sdkPath key).hexPath value
            [.leaf (sdkPath key) value] := .leaf
        rwa [hexPath_sdkPath] at hproof
    · cases hkey
  | branch p c ih =>
    rcases Trie.lookup_branch_cases p c key with ⟨i, r, rfl⟩ | ⟨-, hnone⟩
    · obtain ⟨links, rfl, hlinks⟩ := h
      have hlinks' : ∀ j, LinkDenotes hasher store (c j) (links j) := hlinks
      rw [Trie.lookup_branch] at hkey
      have hd := PatriciaTree.getLinkedNode_denotes hread hlinks' i
      have hne : c i ≠ .empty := fun he => by rw [he] at hkey; cases hkey
      obtain ⟨nodePath, nodes, hlookup, hmap, hlen, hproof⟩ := ih i hd hkey
      have hdrop : (p ++ i :: r).drop (findFirstDifferenceIndex p (p ++ i :: r)) = i :: r := by
        rw [PatriciaTree.findFirstDifferenceIndex_append, List.drop_left]
      have hsdk := sdkLinks_eq hlinks'
      refine ⟨.branch p links :: nodePath, .branch (sdkPath p) (sdkLinks hasher links) :: nodes, ?_, ?_, ?_, ?_⟩
      · rw [PatriciaTree.lookup_branch_node links p hdrop, if_neg fun he => hne (hd.isEmpty_iff.1 he), hlookup]
        rfl
      · rw [List.mapM_cons, hmap]
        rfl
      · intro n hn
        rw [List.length_append, List.length_cons]
        rcases List.mem_cons.1 hn with rfl | hn
        · simp [TreeNode.path]
        · have := hlen n hn
          omega
      · rw [hsdk]
        have hproof' : ProofOf hasher (.branch (sdkPath p).hexPath c) ((sdkPath p).hexPath ++ i :: r) value
            (.branch (sdkPath p) (fun j => childLink hasher (c j)) :: nodes) := .branch hproof
        rwa [hexPath_sdkPath] at hproof'
    · rw [hnone] at hkey
      cases hkey

def hashInputs (sha3 : List UInt8 → Hash256) : Trie Nibble Hash256 → Set (List UInt8)
  | .empty => ∅
  | .leaf path value => {leafInput path value}
  | .branch path children =>
    {input | input = branchInput path (fun i => trieHash (sha3Hasher sha3) (children i)) ∨
      ∃ i, input ∈ hashInputs sha3 (children i)}

/-- No collisions among the nodes of a trie and of a proof, and no node of the proof with the zero hash. -/
structure CollisionFreeOn (sha3 : List UInt8 → Hash256) (t : Trie Nibble Hash256) (nodes : List Node) : Prop where
  injOn : Set.InjOn sha3 (hashInputs sha3 t ∪ {input | ∃ node ∈ nodes, input = node.hashInput})
  ne_zero : ∀ node ∈ nodes, node.calculateHash sha3 ≠ Hash256.zero

/-- The path of every branch is made of the index of its first link to the next node. -/
def Straight (sha3 : List UInt8 → Hash256) : List Node → Prop
  | .branch path links :: next :: nodes =>
    (∀ i, findLinkIndex links (next.calculateHash sha3) = some i → ∀ nibble ∈ path.hexPath, nibble = i) ∧
      Straight sha3 (next :: nodes)
  | _ => True

namespace CollisionFreeOn
variable {t : Trie Nibble Hash256} {nodes : List Node} {node : Node}
  {children : Nibble → Trie Nibble Hash256} {p : TreeNodePath}

theorem ne_empty (h : CollisionFreeOn sha3 t (node :: nodes))
    (hhash : node.calculateHash sha3 = trieHash (sha3Hasher sha3) t) : t ≠ .empty := by
  rintro rfl
  exact h.ne_zero node (by simp) hhash

theorem input_eq (h : CollisionFreeOn sha3 t (node :: nodes)) {input : List UInt8} (hinput : input ∈ hashInputs sha3 t)
    (hhash : node.calculateHash sha3 = sha3 input) : node.hashInput = input :=
  h.injOn (.inr ⟨node, by simp, rfl⟩) (.inl hinput) hhash

theorem child (h : CollisionFreeOn sha3 (.branch p children) (node :: nodes)) (i : Nibble) :
    CollisionFreeOn sha3 (children i) nodes := by
  refine ⟨h.injOn.mono ?_, fun n hn => h.ne_zero n (by simp [hn])⟩
  rintro input (hinput | ⟨n, hn, rfl⟩)
  · exact .inl (.inr ⟨i, hinput⟩)
  · exact .inr ⟨n, by simp [hn], rfl⟩

theorem eq_leaf {path : PatriciaTreePath} {value : Hash256} (h : CollisionFreeOn sha3 t (.leaf path value :: nodes))
    (hhash : (Node.leaf path value).calculateHash sha3 = trieHash (sha3Hasher sha3) t) :
    t = .leaf path.hexPath value := by
  cases t with
  | empty => exact absurd rfl (h.ne_empty hhash)
  | leaf p v =>
    have hinput := h.input_eq rfl hhash
    rw [hashInput_leaf] at hinput
    obtain ⟨hp, hv⟩ := leafInput_inj hinput
    rw [hp, hv]
  | branch p c =>
    have hinput := h.input_eq (.inl rfl) hhash
    rw [hashInput_leaf] at hinput
    exact absurd hinput (leafInput_ne_branchInput _ _ _ _)

theorem eq_branch {path : PatriciaTreePath} {links : Nibble → Option Hash256}
    (h : CollisionFreeOn sha3 t (.branch path links :: nodes))
    (hhash : (Node.branch path links).calculateHash sha3 = trieHash (sha3Hasher sha3) t) :
    ∃ children, t = .branch path.hexPath children ∧
      ∀ i, (links i).getD Hash256.zero = trieHash (sha3Hasher sha3) (children i) := by
  cases t with
  | empty => exact absurd rfl (h.ne_empty hhash)
  | leaf p v =>
    have hinput := h.input_eq rfl hhash
    rw [hashInput_branch] at hinput
    exact absurd hinput.symm (leafInput_ne_branchInput _ _ _ _)
  | branch p c =>
    have hinput := h.input_eq (.inl rfl) hhash
    rw [hashInput_branch] at hinput
    obtain ⟨hp, hlinks⟩ := branchInput_inj hinput
    exact ⟨c, by rw [hp], congrFun hlinks⟩

end CollisionFreeOn

/-- A proof with the hash of a trie follows the nodes of the trie. The assembled path is a key of the trie exactly
when the proof is straight. -/
theorem lookup_actualPath {t : Trie Nibble Hash256} {nodes : List Node} {node : Node}
    {last : PatriciaTreePath} {value : Hash256} {state : Option Hash256 × List Nibble}
    (hfree : CollisionFreeOn sha3 t (node :: nodes))
    (hhash : node.calculateHash sha3 = trieHash (sha3Hasher sha3) t)
    (hlast : (node :: nodes).getLast? = some (.leaf last value))
    (hactual : actualPath sha3 (node :: nodes) = .ok state) :
    t.lookup state.2 = some value ↔ Straight sha3 (node :: nodes) := by
  induction nodes generalizing node t state with
  | nil =>
    cases hlast
    rw [hfree.eq_leaf hhash]
    cases hactual
    show (Trie.leaf last.hexPath value).lookup (last.hexPath ++ []) = some value ↔ _
    rw [List.append_nil, Trie.lookup_leaf, if_pos rfl]
    exact ⟨fun _ => trivial, fun _ => rfl⟩
  | cons next nodes ih =>
    cases hrest : actualPath sha3 (next :: nodes) with
    | error e =>
      rw [actualPath_cons, hrest] at hactual
      cases hactual
    | ok rest =>
      have hchild := actualPath_fst hrest
      rw [actualPath_cons_ok hrest, proveStep, hchild] at hactual
      cases node with
      | leaf path v => cases hactual
      | branch path links =>
        simp only [headHash] at hactual
        cases hfind : findLinkIndex links (next.calculateHash sha3) with
        | none => simp only [hfind] at hactual; cases hactual
        | some j =>
          simp only [hfind] at hactual
          cases hactual
          obtain ⟨children, rfl, hlinks⟩ := hfree.eq_branch hhash
          have hnext : next.calculateHash sha3 = trieHash (sha3Hasher sha3) (children j) := by
            rw [← hlinks j, findLinkIndex_eq_some hfind]
            rfl
          have ih' := ih (hfree.child j) hnext (by rwa [List.getLast?_cons_cons] at hlast) hrest
          have hstraight : Straight sha3 (.branch path links :: next :: nodes) ↔
              (∀ nibble ∈ path.hexPath, nibble = j) ∧ Straight sha3 (next :: nodes) := by
            rw [Straight]
            refine and_congr_left fun _ => ⟨fun h => h j hfind, fun h i hi => ?_⟩
            rw [hfind] at hi
            cases hi
            exact h
          rw [hstraight, ← ih']
          by_cases hall : ∀ nibble ∈ path.hexPath, nibble = j
          · have hpath : j :: (path.hexPath ++ rest.2) = path.hexPath ++ j :: rest.2 :=
              cons_append_eq_iff.2 ⟨⟨rfl, hall⟩, rfl⟩
            rw [hpath, Trie.lookup_branch]
            exact (and_iff_right hall).symm
          · -- the assembled path is no path through the branch
            have hnone : (Trie.branch path.hexPath children).lookup (j :: (path.hexPath ++ rest.2)) = none := by
              refine Trie.lookup_branch_eq_none fun i r heq => ?_
              obtain ⟨⟨rfl, h⟩, -⟩ := cons_append_eq_iff.1 heq
              exact hall h
            rw [hnone]
            exact ⟨nofun, fun h => absurd h.1 hall⟩

theorem provePatriciaMerkle_of_proofOf {t : Trie Nibble Hash256} {encodedKey value : Hash256} {nodes : List Node}
    (h : ProofOf (sha3Hasher sha3) t (treeNodePath encodedKey.bytes) value nodes) {roots : List Hash256}
    (hroot : trieHash (sha3Hasher sha3) t ∈ roots) :
    provePatriciaMerkle sha3 encodedKey value nodes (sha3 (roots.flatMap Hash256.bytes)) roots = some .validPositive ↔
      Aligned (sha3Hasher sha3) t (treeNodePath encodedKey.bytes) := by
  obtain ⟨actual, hactual, hiff⟩ := h.actualPath_eq
  obtain ⟨last, hlast⟩ := h.getLast_eq
  have hhead := h.headHash_eq
  have hresult : provePatriciaMerkle sha3 encodedKey value nodes (sha3 (roots.flatMap Hash256.bytes)) roots =
      provePositive sha3 encodedKey nodes := by
    cases nodes with
    | nil => cases hhead
    | cons node nodes =>
      rw [headHash, Option.some.injEq] at hhead
      simp [provePatriciaMerkle, checkStateHash, hlast, hhead, hroot]
  rw [hresult, provePositive, hactual, ← hiff]
  by_cases heq : actual = treeNodePath encodedKey.bytes <;> simp [heq]

theorem actualPath_eq_error {nodes : List Node} {e : Option PatriciaMerkleProofResult}
    (h : actualPath sha3 nodes = .error e) : e = none ∨ e = some .unlinkedNode := by
  induction nodes with
  | nil => cases h
  | cons node nodes ih =>
    cases hrest : actualPath sha3 nodes with
    | error e' =>
      rw [actualPath_cons, hrest] at h
      cases h
      exact ih hrest
    | ok state =>
      rw [actualPath_cons_ok hrest, proveStep] at h
      split at h
      · cases h
      · split at h
        · cases h
          exact .inl rfl
        · split at h
          · cases h
            exact .inr rfl
          · cases h

theorem of_validPositive {encodedKey value stateHash : Hash256} {nodes : List Node} {roots : List Hash256}
    (h : provePatriciaMerkle sha3 encodedKey value nodes stateHash roots = some .validPositive) :
    ∃ hash path, nodes.getLast? = some (.leaf path value) ∧
      actualPath sha3 nodes = .ok (hash, treeNodePath encodedKey.bytes) := by
  rw [provePatriciaMerkle] at h
  split at h
  · cases h
  split at h
  · rename_i first last hfirst hlast
    split at h
    · cases h
    cases last with
    | leaf path v =>
      by_cases hvalue : value = v
      · subst hvalue
        simp only [ne_eq, not_true_eq_false, if_false, provePositive] at h
        cases hactual : actualPath sha3 nodes with
        | error e =>
          simp only [hactual] at h
          rcases actualPath_eq_error hactual with rfl | rfl <;> cases h
        | ok state =>
          simp only [hactual] at h
          split at h
          · cases h
          · rename_i hpath
            rw [not_not] at hpath
            exact ⟨state.1, path, hlast, by rw [← hpath]⟩
      · simp only [ne_eq, hvalue, not_false_eq_true, if_true] at h
        cases h
    | branch path links =>
      simp only [proveNegative] at h
      cases hactual : actualPath sha3 nodes with
      | error e =>
        simp only [hactual] at h
        rcases actualPath_eq_error hactual with rfl | rfl <;> cases h
      | ok state =>
        simp only [hactual] at h
        split_ifs at h <;> cases h
  · cases h

end Proof

section Claim
variable {Key Value : Type*}

def encodedKeyOf (encoder : Encoder Key Value Hash256) (hsize : encoder.encodedSize = 32) (key : Key) : Hash256 :=
  ⟨encoder.encodeKey key, (encoder.size_encodeKey key).trans hsize⟩

/-- When state proofs hold. The proof that the client sends for a mapped key is accepted exactly when the key is
aligned, and an accepted proof with the root of a tree is true exactly when it is straight. -/
theorem provePatriciaMerkle_iff (sha3 : List UInt8 → Hash256) (encoder : Encoder Key Value Hash256)
    (hsize : encoder.encodedSize = 32) (map : Key → Option Value) (t : Trie Nibble Hash256)
    (ht : TrieOf encoder map t) :
    (∀ (store source : Hash256 → TreeNode Hash256) (root : TreeNode Hash256), Readable (sha3Hasher sha3) store source →
      Denotes (sha3Hasher sha3) store t root → ∀ roots : List Hash256, root.hash (sha3Hasher sha3) ∈ roots →
      ∀ key value, map key = some value → ∃ nodePath bytes nodes,
        PatriciaTree.lookup (sha3Hasher sha3) source root (encoder.path key) =
          some (some (encoder.encodeValue value), nodePath) ∧
        serializeStatePath (sha3Hasher sha3) nodePath = some bytes ∧ deserializePatriciaTreeNodes bytes = some nodes ∧
        (provePatriciaMerkle sha3 (encodedKeyOf encoder hsize key) (encoder.encodeValue value) nodes
            (sha3 (roots.flatMap Hash256.bytes)) roots = some .validPositive ↔
          Aligned (sha3Hasher sha3) t (encoder.path key))) ∧
    (∀ (encodedKey valueHash : Hash256) (nodes : List Node) (stateHash : Hash256) (roots : List Hash256),
      provePatriciaMerkle sha3 encodedKey valueHash nodes stateHash roots = some .validPositive →
      headHash sha3 nodes = some (trieHash (sha3Hasher sha3) t) → CollisionFreeOn sha3 t nodes →
      ((∃ key value, encodedKeyOf encoder hsize key = encodedKey ∧ map key = some value ∧
        encoder.encodeValue value = valueHash) ↔ Straight sha3 nodes)) := by
  constructor
  · intro store source root hread hdenotes roots hroot key value hkey
    have hlookup : t.lookup (encoder.path key) = some (encoder.encodeValue value) := by rw [ht.lookup_path, hkey]; rfl
    obtain ⟨nodePath, nodes, hnodePath, hmap, hlen, hproof⟩ := lookup_proofOf hread hdenotes hlookup
    have hshort : ∀ node ∈ nodePath, node.path.length < 256 := by
      intro node hnode
      have hle := hlen node hnode
      rw [encoder.length_path, hsize] at hle
      omega
    obtain ⟨bytes, hserialize, hdeserialize⟩ := deserialize_serializeStatePath hmap hshort
    rw [hdenotes.hash_eq] at hroot
    have hresult : ProofOf (sha3Hasher sha3) t (treeNodePath (encodedKeyOf encoder hsize key).bytes)
        (encoder.encodeValue value) nodes := hproof
    exact ⟨nodePath, bytes, nodes, hnodePath, hserialize, hdeserialize, provePatriciaMerkle_of_proofOf hresult hroot⟩
  · intro encodedKey valueHash nodes stateHash roots haccepted hhead hfree
    obtain ⟨hash, path, hlast, hactual⟩ := of_validPositive haccepted
    have hkey : (∃ key value, encodedKeyOf encoder hsize key = encodedKey ∧ map key = some value ∧
        encoder.encodeValue value = valueHash) ↔ t.lookup (treeNodePath encodedKey.bytes) = some valueHash := by
      constructor
      · rintro ⟨key, value, rfl, hmap, rfl⟩
        exact (ht.lookup_path key).trans (by rw [hmap]; rfl)
      · intro hlookup
        obtain ⟨key, hpath⟩ := ht.exists_key _ (by rw [hlookup]; simp)
        have hbytes : encodedKey.bytes = encoder.encodeKey key := treeNodePath_injective hpath
        rw [hpath, ht.lookup_path] at hlookup
        obtain ⟨value, hmap, hvalue⟩ := Option.map_eq_some_iff.1 hlookup
        exact ⟨key, value, Hash256.bytes_injective hbytes.symm, hmap, hvalue⟩
    rw [hkey]
    cases nodes with
    | nil => cases hhead
    | cons node nodes =>
      rw [headHash, Option.some.injEq] at hhead
      exact lookup_actualPath hfree hhead hlast hactual

end Claim

def hashEncoder : Encoder Hash256 Hash256 Hash256 where
  encodeKey := Hash256.bytes
  encodeValue := id
  encodedSize := 32
  size_encodeKey := Hash256.size_bytes
  encodeKey_injective := Hash256.bytes_injective

def sampleHash (first rest : UInt8) : Hash256 := ⟨first :: List.replicate 31 rest, by simp⟩

def sampleChildren : Nibble → Trie Nibble Hash256 :=
  Function.update (Function.update (fun _ => .empty) 1 (.leaf (List.replicate 62 0xA) (sampleHash 7 7))) 2
    (.leaf (List.replicate 62 0xB) (sampleHash 8 8))

def sampleTrie : Trie Nibble Hash256 := .branch [1] sampleChildren

theorem trieOf_sampleTrie :
    TrieOf hashEncoder (finalMap [.set (sampleHash 0x11 0xAA) (sampleHash 7 7),
      .set (sampleHash 0x12 0xBB) (sampleHash 8 8)]) sampleTrie :=
  ((TrieOf.empty hashEncoder).insert (sampleHash 0x11 0xAA) (sampleHash 7 7)).insert (sampleHash 0x12 0xBB)
    (sampleHash 8 8)

/-- The proof that the client sends for the second key is not accepted, whatever the hash is. -/
theorem branch_path_rejected : ¬ ∃ sha3 : List UInt8 → Hash256, ∀ root nodePath bytes nodes,
    finalRoot (sha3Hasher sha3) (fun _ => .empty) hashEncoder
      [.set (sampleHash 0x11 0xAA) (sampleHash 7 7), .set (sampleHash 0x12 0xBB) (sampleHash 8 8)] = some root →
    PatriciaTree.lookup (sha3Hasher sha3) (fun _ => .empty) root (hashEncoder.path (sampleHash 0x12 0xBB)) =
      some (some (sampleHash 8 8), nodePath) →
    serializeStatePath (sha3Hasher sha3) nodePath = some bytes → deserializePatriciaTreeNodes bytes = some nodes →
    provePatriciaMerkle sha3 (sampleHash 0x12 0xBB) (sampleHash 8 8) nodes
      (sha3 ([root.hash (sha3Hasher sha3)].flatMap Hash256.bytes)) [root.hash (sha3Hasher sha3)] =
        some .validPositive := by
  rintro ⟨sha3, h⟩
  have hread : Readable (sha3Hasher sha3) (fun _ => .empty) (fun _ => .empty) := ⟨fun _ hne => absurd rfl hne, rfl⟩
  obtain ⟨root, hroot, t, ht, hdenotes⟩ := Represents.run hread ⟨.empty, TrieOf.empty hashEncoder, rfl⟩
    [.set (sampleHash 0x11 0xAA) (sampleHash 7 7), .set (sampleHash 0x12 0xBB) (sampleHash 8 8)]
  obtain rfl : t = sampleTrie := ht.eq trieOf_sampleTrie
  have hlookup : sampleTrie.lookup (hashEncoder.path (sampleHash 0x12 0xBB)) = some (sampleHash 8 8) := by decide
  obtain ⟨nodePath, nodes, hnodePath, hmap, hlen, hproof⟩ := lookup_proofOf hread hdenotes hlookup
  obtain ⟨bytes, hserialize, hdeserialize⟩ := deserialize_serializeStatePath hmap fun node hnode =>
    lt_of_le_of_lt (hlen node hnode) (by rw [hashEncoder.length_path]; decide)
  have haccepted := h root nodePath bytes nodes hroot hnodePath hserialize hdeserialize
  rw [provePatriciaMerkle_of_proofOf hproof (by rw [hdenotes.hash_eq]; exact List.mem_singleton_self _)] at haccepted
  -- the nibble of the path is 1, the nibble of the link is 2
  have hpath := (haccepted 2 (List.replicate 62 0xB) rfl).1 1 (List.mem_singleton_self _)
  exact absurd hpath (by decide)

def leadingBytes (input : List UInt8) : Hash256 := ⟨(input ++ List.replicate 32 0).take 32, by simp⟩

def sampleProof : List Node :=
  [.branch (sdkPath [1]) fun i => childLink (sha3Hasher leadingBytes) (sampleChildren i),
    .leaf (sdkPath (List.replicate 62 0xA)) (sampleHash 7 7)]

theorem aligned_sampleTrie : Aligned (sha3Hasher leadingBytes) sampleTrie
    (hashEncoder.path (sampleHash 0x11 0xAA)) := by
  intro i rest heq
  cases heq
  refine ⟨by simp, fun j hj hne => absurd ?_ hne, trivial⟩
  have hzero : j = 0 := (Fin.lt_one_iff j).1 hj
  rw [hzero]
  rfl

def sampleInputs : List (List UInt8) :=
  [branchInput [1] fun i => trieHash (sha3Hasher leadingBytes) (sampleChildren i),
    leafInput (List.replicate 62 0xA) (sampleHash 7 7), leafInput (List.replicate 62 0xB) (sampleHash 8 8)]

theorem mem_sampleInputs {i : Nibble} {input : List UInt8} (h : input ∈ hashInputs leadingBytes (sampleChildren i)) :
    input ∈ sampleInputs := by
  rw [sampleChildren, Function.update_apply] at h
  split at h
  · rw [show input = _ from h]
    simp [sampleInputs]
  · rw [Function.update_apply] at h
    split at h
    · rw [show input = _ from h]
      simp [sampleInputs]
    · cases h

theorem collisionFreeOn_sampleProof : CollisionFreeOn leadingBytes sampleTrie sampleProof := by
  have hmem : ∀ input ∈ hashInputs leadingBytes sampleTrie ∪ {input | ∃ node ∈ sampleProof, input = node.hashInput},
      input ∈ sampleInputs := by
    rintro input ((rfl | ⟨i, hi⟩) | ⟨node, hnode, rfl⟩)
    · exact List.mem_cons_self
    · exact mem_sampleInputs hi
    · rcases List.mem_cons.1 hnode with rfl | hnode
      · rw [hashInput_branch, hexPath_sdkPath]
        simp only [getD_childLink]
        exact List.mem_cons_self
      · rw [List.mem_singleton.1 hnode, hashInput_leaf, hexPath_sdkPath]
        simp [sampleInputs]
  have hnodup : (sampleInputs.map leadingBytes).Nodup := by decide
  refine ⟨fun input hinput input' hinput' heq => ?_, by decide⟩
  exact List.inj_on_of_nodup_map hnodup (hmem input hinput) (hmem input' hinput') heq

theorem accepted_sampleProof :
    provePatriciaMerkle leadingBytes (sampleHash 0x11 0xAA) (sampleHash 7 7) sampleProof
      (leadingBytes ([trieHash (sha3Hasher leadingBytes) sampleTrie].flatMap Hash256.bytes))
      [trieHash (sha3Hasher leadingBytes) sampleTrie] = some .validPositive := by
  decide +kernel

/-- The first key is aligned: its proof is accepted, and what an accepted straight proof says is true. -/
theorem provePatriciaMerkle_sample :
    (∃ nodePath bytes nodes,
      PatriciaTree.lookup (sha3Hasher leadingBytes) (fun _ => .empty) (ofTrie sampleTrie)
        (hashEncoder.path (sampleHash 0x11 0xAA)) = some (some (sampleHash 7 7), nodePath) ∧
      serializeStatePath (sha3Hasher leadingBytes) nodePath = some bytes ∧
        deserializePatriciaTreeNodes bytes = some nodes ∧
      provePatriciaMerkle leadingBytes (sampleHash 0x11 0xAA) (sampleHash 7 7) nodes
        (leadingBytes ([(ofTrie sampleTrie).hash (sha3Hasher leadingBytes)].flatMap Hash256.bytes))
        [(ofTrie sampleTrie).hash (sha3Hasher leadingBytes)] = some .validPositive) ∧
    (∃ key value, encodedKeyOf hashEncoder rfl key = sampleHash 0x11 0xAA ∧
      finalMap [.set (sampleHash 0x11 0xAA) (sampleHash 7 7), .set (sampleHash 0x12 0xBB) (sampleHash 8 8)]
        key = some value ∧
      hashEncoder.encodeValue value = sampleHash 7 7) := by
  obtain ⟨hcomplete, hsound⟩ := provePatriciaMerkle_iff leadingBytes hashEncoder rfl _ sampleTrie trieOf_sampleTrie
  constructor
  · obtain ⟨nodePath, bytes, nodes, hlookup, hserialize, hdeserialize, hiff⟩ :=
      hcomplete (fun _ => .empty) (fun _ => .empty) (ofTrie sampleTrie) ⟨fun _ hne => absurd rfl hne, rfl⟩
      (denotes_ofTrie _ _ _) _ (List.mem_singleton_self _)
      (sampleHash 0x11 0xAA) (sampleHash 7 7) (by decide)
    exact ⟨nodePath, bytes, nodes, hlookup, hserialize, hdeserialize, hiff.2 aligned_sampleTrie⟩
  · refine (hsound _ _ sampleProof _ _ accepted_sampleProof (by decide +kernel)
      collisionFreeOn_sampleProof).2 ⟨?_, trivial⟩
    decide +kernel

end Catapult.Sdk
