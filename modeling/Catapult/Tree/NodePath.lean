import Catapult.Tree.BaseTree

/-!
# Trees reached by `set` and `unset` (`PatriciaTree`)

`Reached` are the trees that `set`, `unset`, `saveAll` and `tryLoad` lead to, with the maps they stand for. Such a
tree denotes a compact trie, with some nodes in memory and some in the data source only. `lookup` and `unset` go down
a branch without testing that the key shares its whole path: where it does not, what is left of the key is too long
for everything below.
-/

namespace Catapult.Tree
variable {Hash Source Key Value : Type*} {hasher : NodeHasher Hash}

/-- The public `unset`: the root afterwards, and whether the key was found. -/
def PatriciaTree.unsetKey (hasher : NodeHasher Hash) (source : Hash → TreeNode Hash) (encoder : Encoder Key Value Hash)
    (root : TreeNode Hash) (key : Key) : Option (TreeNode Hash × Bool) :=
  match unset hasher source root (encoder.path key) with
  | none => none
  | some none => some (root, false)
  | some (some (updatedRoot, _)) => some (updatedRoot, true)

/-- `lookup` finds the values of the map, and no other keys. -/
def Lookups (hasher : NodeHasher Hash) (source : Hash → TreeNode Hash) (encoder : Encoder Key Value Hash)
    (map : Key → Option Value) (root : TreeNode Hash) : Prop :=
  ∀ key, ∃ nodePath, PatriciaTree.lookup hasher source root (encoder.path key) =
    some ((map key).map encoder.encodeValue, nodePath)

/-- What `lookup`, `set` and `unset` do to the tree of a map. -/
structure MapOperations [DecidableEq Key] (hasher : NodeHasher Hash) (source : Hash → TreeNode Hash)
    (encoder : Encoder Key Value Hash) (map : Key → Option Value) (root : TreeNode Hash) : Prop where
  lookup : Lookups hasher source encoder map root
  set : ∀ key value, ∃ root', PatriciaTree.set hasher source root (encoder.path key) (encoder.encodeValue value) =
    some root' ∧ Lookups hasher source encoder (Function.update map key (some value)) root'
  unset_of_some : ∀ key value, map key = some value →
    ∃ root', PatriciaTree.unsetKey hasher source encoder root key = some (root', true) ∧
      Lookups hasher source encoder (Function.update map key none) root'
  unset_of_none : ∀ key, map key = none → PatriciaTree.unsetKey hasher source encoder root key = some (root, false)

section Reached
variable [DecidableEq Key] (api : DataSource hasher Source) (nodes : Set (TreeNode Hash))
  (encoder : Encoder Key Value Hash)

/-- The data sources, maps and root nodes of the trees that are reached from an empty tree. The nodes that the data
source has, and those that are saved, are among `nodes`. -/
inductive Reached : Source → (Key → Option Value) → TreeNode Hash → Prop
  | empty {source : Source} (hsound : Sound hasher nodes (api.get source)) : Reached source (fun _ => none) .empty
  | operation {source : Source} {map : Key → Option Value} {root root' : TreeNode Hash}
      (h : Reached source map root) (operation : Operation Key Value)
      (happly : operation.applyToRoot hasher (api.get source) encoder root = some root') :
      Reached source (operation.applyToMap map) root'
  | saveAll {source : Source} {map : Key → Option Value} {root : TreeNode Hash} (h : Reached source map root)
      (hroot : root ≠ .empty) (hnodes : ∀ t, Denotes hasher (api.get source) t root → NodesIn hasher nodes t) :
      Reached (saveAll hasher api.set root source) map root
  | tryLoad {source : Source} {map : Key → Option Value} {root : TreeNode Hash} (h : Reached source map root)
      (hroot : root ≠ .empty) (hnodes : ∀ t, Denotes hasher (api.get source) t root → NodesIn hasher nodes t) :
      Reached (saveAll hasher api.set root source) map
        (api.get (Tree.saveAll hasher api.set root source) (root.hash hasher))

end Reached

section Represents
variable [DecidableEq Key] {store source : Hash → TreeNode Hash} {encoder : Encoder Key Value Hash}
  {map : Key → Option Value} {root : TreeNode Hash}

omit [DecidableEq Key] in
theorem Represents.exists_trie (h : Represents hasher store encoder map root) (hroot : root ≠ .empty) :
    ∃ t, t ≠ .empty ∧ TrieOf encoder map t ∧ Denotes hasher store t root := by
  obtain ⟨t, ht, hd⟩ := h
  refine ⟨t, ?_, ht, hd⟩
  rintro rfl
  exact hroot hd

theorem Represents.mapOperations (hread : Readable hasher store source)
    (h : Represents hasher store encoder map root) : MapOperations hasher source encoder map root := by
  refine ⟨h.lookup hread, fun key value => ?_, fun key value hkey => ?_, fun key hkey => ?_⟩
  · obtain ⟨root', hset, hroot'⟩ := h.apply hread (.set key value)
    exact ⟨root', hset, hroot'.lookup hread⟩
  · obtain ⟨t, ht, hd⟩ := h
    have hc : t.Compact (encoder.path key).length := by rw [encoder.length_path]; exact ht.compact
    rcases PatriciaTree.unset_denotes hread hd hc with ⟨hnone, -⟩ | ⟨-, root', canMerge, hunset, hd', -⟩
    · rw [ht.lookup_path, hkey] at hnone
      cases hnone
    · have hroot' : Represents hasher store encoder (Function.update map key none) root' := ⟨_, ht.erase key, hd'⟩
      exact ⟨root', by rw [PatriciaTree.unsetKey, hunset], hroot'.lookup hread⟩
  · obtain ⟨t, ht, hd⟩ := h
    have hc : t.Compact (encoder.path key).length := by rw [encoder.length_path]; exact ht.compact
    rcases PatriciaTree.unset_denotes hread hd hc with ⟨-, hunset⟩ | ⟨hsome, -⟩
    · rw [PatriciaTree.unsetKey, hunset]
    · rw [ht.lookup_path, hkey] at hsome
      exact absurd rfl hsome

end Represents

section ReachedRun
variable [DecidableEq Key] {api : DataSource hasher Source} {nodes : Set (TreeNode Hash)}
  {encoder : Encoder Key Value Hash} {source : Source} {map : Key → Option Value} {root : TreeNode Hash}

theorem Reached.represents (hfree : CollisionFree hasher nodes) (h : Reached api nodes encoder source map root) :
    Sound hasher nodes (api.get source) ∧ Represents hasher (api.get source) encoder map root := by
  induction h with
  | empty hsound => exact ⟨hsound, .empty, TrieOf.empty encoder, rfl⟩
  | operation _ operation happly ih =>
    obtain ⟨hsound, hrep⟩ := ih
    obtain ⟨root', happly', hroot'⟩ := hrep.apply (Sound.readable hfree hsound) operation
    rw [happly, Option.some.injEq] at happly'
    exact ⟨hsound, happly' ▸ hroot'⟩
  | saveAll _ hroot hnodes ih =>
    obtain ⟨t, hne, ht, hd⟩ := ih.2.exists_trie hroot
    have hsaved := savedIn_saveAll hfree ih.1 hd (hnodes t hd) hne
    exact ⟨hsaved.sound, t, ht, hd.mono hsaved.ext⟩
  | tryLoad _ hroot hnodes ih =>
    obtain ⟨t, hne, ht, hd⟩ := ih.2.exists_trie hroot
    have hsaved := savedIn_saveAll hfree ih.1 hd (hnodes t hd) hne
    refine ⟨hsaved.sound, t, ht, ?_⟩
    rw [hd.hash_eq, hsaved.stored.get_eq hne]
    exact hsaved.stored.denotes

end ReachedRun

/-- In every tree that `set` and `unset` lead to, a key is found if and only if it is mapped, `unset` finds
exactly the mapped keys and removes only the one it is called for, and `set` changes only its key. For a
tree that was saved and loaded in between this takes a hash that tells the saved nodes apart. -/
theorem reached_mapOperations [DecidableEq Key] (hasher : NodeHasher Hash) (encoder : Encoder Key Value Hash) :
    (∀ (source : Hash → TreeNode Hash) (operations : List (Operation Key Value)), source hasher.zero = .empty →
      ∃ root, finalRoot hasher source encoder operations = some root ∧
        MapOperations hasher source encoder (finalMap operations) root) ∧
    (∀ (api : DataSource hasher Source) (nodes : Set (TreeNode Hash)) (source : Source) (map : Key → Option Value)
      (root : TreeNode Hash), CollisionFree hasher nodes → Reached api nodes encoder source map root →
      MapOperations hasher (api.get source) encoder map root) := by
  refine ⟨fun source operations hzero => ?_, fun api nodes source map root hfree h => ?_⟩
  · have hread : Readable hasher (fun _ => .empty) source := ⟨fun _ h => absurd rfl h, hzero⟩
    obtain ⟨root, hroot, hrep⟩ := Represents.run hread ⟨.empty, TrieOf.empty encoder, rfl⟩ operations
    exact ⟨root, hroot, hrep.mapOperations hread⟩
  · obtain ⟨hsound, hrep⟩ := h.represents hfree
    exact hrep.mapOperations (Sound.readable hfree hsound)

theorem reached_leaf : Reached MemoryDataSource.api codeNodes byteEncoder
    (MemoryDataSource.empty : MemoryDataSource codeHasher) (Function.update (fun _ => none) 0x11 (some 5))
    (.leaf [1, 1] 5) := by
  have hset : (Operation.set 0x11 5 : Operation UInt8 Nat).applyToRoot codeHasher
      ((MemoryDataSource.api : DataSource codeHasher _).get MemoryDataSource.empty) byteEncoder .empty =
        some (.leaf [1, 1] 5) := by
    rw [Operation.applyToRoot, PatriciaTree.set]
    rfl
  exact .operation (.empty fun _ => .inl rfl) _ hset

/-- Two keys with a shared nibble, one of them removed again; and one key in a tree that has been saved. -/
theorem reached_mapOperations_sample :
    (∃ root, finalRoot codeHasher (fun _ => .empty) byteEncoder [.set 0x11 5, .set 0x12 6, .unset 0x11] = some root ∧
      MapOperations codeHasher (fun _ => .empty) byteEncoder (finalMap [.set 0x11 5, .set 0x12 6, .unset 0x11]) root) ∧
    MapOperations codeHasher
      ((MemoryDataSource.api : DataSource codeHasher _).get
        (saveAll codeHasher MemoryDataSource.api.set (.leaf [1, 1] 5) MemoryDataSource.empty))
      byteEncoder (Function.update (fun _ => none) 0x11 (some 5)) (.leaf [1, 1] 5) := by
  obtain ⟨hnew, hsaved⟩ := @reached_mapOperations _ (MemoryDataSource codeHasher) _ _ _ codeHasher byteEncoder
  exact ⟨hnew (fun _ => .empty) [.set 0x11 5, .set 0x12 6, .unset 0x11] rfl,
    hsaved MemoryDataSource.api _ _ _ _ collisionFree_codeHasher
      (reached_leaf.saveAll (by simp) fun t _ => nodesIn_codeNodes t)⟩

/-!
## The node paths of lookups (`PatriciaTree::lookup`)

The nodes that a lookup visits are sent to clients as a proof that a key is in the tree or not. The nibble
that a key selects at a branch is the one after the start that it shares with the path of the branch,
also where the two part within the path: the nodes below are then visited too, and the path that they
spell is not the key.
-/

/-- The part of a key from the nibble on that it selects at a node. -/
def fromSelected (keyPath : TreeNodePath) (node : TreeNode Hash) : TreeNodePath :=
  keyPath.drop (findFirstDifferenceIndex node.path keyPath)

def HashChain (hasher : NodeHasher Hash) : TreeNodePath → List (TreeNode Hash) → Prop
  | keyPath, node :: next :: nodes =>
    ∃ path links index rest, node = .branch path links ∧ fromSelected keyPath node = index :: rest ∧
      next.hash hasher = (links index).hash hasher ∧ HashChain hasher rest (next :: nodes)
  | _, _ => True

def restAtLast : TreeNodePath → List (TreeNode Hash) → TreeNodePath
  | keyPath, node :: next :: nodes => restAtLast (fromSelected keyPath node).tail (next :: nodes)
  | keyPath, _ => keyPath

def joinedPath : TreeNodePath → List (TreeNode Hash) → TreeNodePath
  | keyPath, node :: next :: nodes =>
    node.path ++ ((fromSelected keyPath node).take 1 ++ joinedPath (fromSelected keyPath node).tail (next :: nodes))
  | _, [node] => node.path
  | _, [] => []

/-- The last node is a branch without a link at the nibble that the key selects there. -/
def MissingLink (keyPath : TreeNodePath) (nodes : List (TreeNode Hash)) : Prop :=
  ∃ path links index rest, nodes.getLast? = some (.branch path links) ∧
    fromSelected (restAtLast keyPath nodes) (.branch path links : TreeNode Hash) = index :: rest ∧ links index = .empty

def DivergingPath (keyPath : TreeNodePath) (nodes : List (TreeNode Hash)) : Prop :=
  ∃ path value, nodes.getLast? = some (.leaf path value) ∧ path ≠ restAtLast keyPath nodes ∧
    (joinedPath keyPath nodes).length = keyPath.length ∧ joinedPath keyPath nodes ≠ keyPath

/-- What the node path of a lookup proves about the key. -/
structure NodePathProof (hasher : NodeHasher Hash) (root : TreeNode Hash) (keyPath : TreeNodePath)
    (result : Option Hash) (nodePath : List (TreeNode Hash)) : Prop where
  head : nodePath.head? = some root
  chain : HashChain hasher keyPath nodePath
  found : ∀ value, result = some value →
    (∃ path, nodePath.getLast? = some (.leaf path value)) ∧ joinedPath keyPath nodePath = keyPath
  not_found : result = none → MissingLink keyPath nodePath ∨ DivergingPath keyPath nodePath

section Steps
variable {keyPath rest : TreeNodePath} {node next : TreeNode Hash} {nodes : List (TreeNode Hash)} {index : Nibble}

theorem restAtLast_cons (h : fromSelected keyPath node = index :: rest) :
    restAtLast keyPath (node :: next :: nodes) = restAtLast rest (next :: nodes) := by
  rw [restAtLast, h]
  rfl

theorem joinedPath_cons (h : fromSelected keyPath node = index :: rest) :
    joinedPath keyPath (node :: next :: nodes) = node.path ++ index :: joinedPath rest (next :: nodes) := by
  rw [joinedPath, h]
  rfl

theorem joinedPath_rest (h : fromSelected keyPath node = index :: rest) {joined : TreeNodePath}
    (heq : node.path ++ index :: joined = keyPath) : joined = rest := by
  rw [fromSelected, ← heq, PatriciaTree.findFirstDifferenceIndex_append, List.drop_left] at h
  exact (List.cons.inj h).2

theorem append_fromSelected (h : fromSelected keyPath node = index :: rest)
    (hlen : node.path.length + 1 + rest.length ≤ keyPath.length) : node.path ++ index :: rest = keyPath := by
  obtain ⟨hpath, hkey⟩ := splitCommon_append node.path keyPath
  rw [fromSelected, PatriciaTree.findFirstDifferenceIndex_eq] at h
  have hdrop : (splitCommon node.path keyPath).2.2 = index :: rest := by
    have heq := congrArg (List.drop (splitCommon node.path keyPath).1.length) hkey
    rw [h, List.drop_left] at heq
    exact heq.symm
  have hshared : (splitCommon node.path keyPath).2.1 = [] := by
    have hplen := congrArg List.length hpath
    have hklen := congrArg List.length hkey
    rw [hdrop, List.length_append, List.length_cons] at hklen
    rw [List.length_append] at hplen
    exact List.length_eq_zero_iff.1 (by omega)
  rw [hshared, List.append_nil] at hpath
  rw [hdrop, ← hpath] at hkey
  exact hkey.symm

end Steps

/-- What a lookup has visited below a node, for keys that are not shorter than those of the node. -/
structure Visited (hasher : NodeHasher Hash) (node : TreeNode Hash) (keyPath : TreeNodePath) (depth : Nat)
    (result : Option Hash) (nodePath : List (TreeNode Hash)) : Prop where
  head : ∃ nodes, nodePath = node :: nodes
  chain : HashChain hasher keyPath nodePath
  found : ∀ value, result = some value →
    (∃ path, nodePath.getLast? = some (.leaf path value)) ∧ joinedPath keyPath nodePath = keyPath ∧
      keyPath.length = depth
  not_found : result = none → MissingLink keyPath nodePath ∨
    ∃ path value, nodePath.getLast? = some (.leaf path value) ∧ path ≠ restAtLast keyPath nodePath ∧
      (joinedPath keyPath nodePath).length = depth ∧ joinedPath keyPath nodePath ≠ keyPath

namespace Visited
variable {keyPath rest path : TreeNodePath} {next : TreeNode Hash} {nodePath : List (TreeNode Hash)} {index : Nibble}
  {links : Nibble → TreeNode Hash} {depth : Nat} {result : Option Hash}

theorem leaf {value : Hash} (hle : path.length ≤ keyPath.length) :
    Visited hasher (.leaf path value) keyPath path.length
      (if findFirstDifferenceIndex path keyPath = keyPath.length then some value else none) [.leaf path value] := by
  have hdiff := PatriciaTree.findFirstDifferenceIndex_le path keyPath
  refine ⟨⟨[], rfl⟩, trivial, fun value' hsome => ?_, fun hnone => .inr ⟨path, value, rfl, ?_⟩⟩
  · split at hsome
    · rename_i hall
      rw [Option.some.injEq] at hsome
      obtain ⟨hpath, hkey⟩ := splitCommon_append path keyPath
      have hplen := congrArg List.length hpath
      have hklen := congrArg List.length hkey
      rw [PatriciaTree.findFirstDifferenceIndex_eq] at hall
      rw [List.length_append] at hplen hklen
      rw [List.length_eq_zero_iff.1 (by omega : (splitCommon path keyPath).2.1.length = 0), List.append_nil] at hpath
      rw [List.length_eq_zero_iff.1 (by omega : (splitCommon path keyPath).2.2.length = 0), List.append_nil] at hkey
      have heq : path = keyPath := hpath.trans hkey.symm
      exact ⟨⟨path, by rw [hsome]; rfl⟩, heq, congrArg List.length heq.symm⟩
    · cases hsome
  · have hne : path ≠ keyPath := by
      rintro rfl
      rw [if_pos] at hnone
      · cases hnone
      · have happend := PatriciaTree.findFirstDifferenceIndex_append path []
        rwa [List.append_nil] at happend
    exact ⟨hne, rfl, hne⟩

theorem missing (hsel : fromSelected keyPath (.branch path links : TreeNode Hash) = index :: rest)
    (hlink : links index = .empty) :
    Visited hasher (.branch path links) keyPath depth none [.branch path links] :=
  ⟨⟨[], rfl⟩, trivial, nofun, fun _ => .inl ⟨path, links, index, rest, rfl, hsel, hlink⟩⟩

theorem branch (h : Visited hasher next rest depth result nodePath)
    (hsel : fromSelected keyPath (.branch path links : TreeNode Hash) = index :: rest)
    (hhash : next.hash hasher = (links index).hash hasher) (hle : path.length + 1 + depth ≤ keyPath.length) :
    Visited hasher (.branch path links) keyPath (path.length + 1 + depth) result (.branch path links :: nodePath) := by
  obtain ⟨nodes, rfl⟩ := h.head
  have hlast : (TreeNode.branch path links :: next :: nodes).getLast? = (next :: nodes).getLast? :=
    List.getLast?_cons_cons
  refine ⟨⟨_, rfl⟩, ⟨path, links, index, rest, rfl, hsel, hhash, h.chain⟩, fun value hsome => ?_, fun hnone => ?_⟩
  · obtain ⟨hvalue, hjoined, hdepth⟩ := h.found value hsome
    have hkey : path ++ index :: rest = keyPath := append_fromSelected hsel (by rw [hdepth]; exact hle)
    refine ⟨by rwa [hlast], ?_, ?_⟩
    · rw [joinedPath_cons hsel, hjoined]
      exact hkey
    · rw [← hkey, List.length_append, List.length_cons, hdepth]
      omega
  · rw [MissingLink, hlast, restAtLast_cons hsel, joinedPath_cons hsel]
    refine (h.not_found hnone).imp id ?_
    rintro ⟨leafPath, value, hleaf, hrest, hdepth, hne⟩
    refine ⟨leafPath, value, hleaf, hrest, ?_, fun heq => hne (joinedPath_rest hsel heq)⟩
    rw [List.length_append, List.length_cons, hdepth]
    show path.length + (depth + 1) = path.length + 1 + depth
    omega

end Visited

section Lookup
variable {store source : Hash → TreeNode Hash} {t : Trie Nibble Hash} {node : TreeNode Hash}

theorem PatriciaTree.lookup_visited (hread : Readable hasher store source) (h : Denotes hasher store t node)
    {depth : Nat} (hwf : t.WF depth) {keyPath : TreeNodePath} (hle : depth ≤ keyPath.length) :
    ∃ result nodePath, lookup hasher source node keyPath = some (result, nodePath) ∧
      Visited hasher node keyPath depth result nodePath := by
  induction t generalizing node depth keyPath with
  | empty => exact hwf.elim
  | leaf path value =>
    have hdepth : path.length = depth := hwf
    subst hdepth
    rw [show node = .leaf path value from h, lookup_leaf_node]
    exact ⟨_, _, rfl, Visited.leaf hle⟩
  | branch path children ih =>
    obtain ⟨links, rfl, hlinks⟩ := h
    obtain ⟨d, rfl, hchild, -⟩ := hwf
    have hdiff := findFirstDifferenceIndex_le path keyPath
    obtain ⟨index, rest, hsel⟩ : ∃ index rest,
        fromSelected keyPath (.branch path links : TreeNode Hash) = index :: rest := by
      cases hdrop : fromSelected keyPath (.branch path links : TreeNode Hash) with
      | nil =>
        have hlen := List.drop_eq_nil_iff.1 hdrop
        exact absurd hlen (show ¬ keyPath.length ≤ findFirstDifferenceIndex path keyPath by omega)
      | cons index rest => exact ⟨index, rest, rfl⟩
    have hrest : d ≤ rest.length := by
      have hlen := congrArg List.length hsel
      rw [fromSelected, List.length_drop, List.length_cons] at hlen
      have hlen' : keyPath.length - findFirstDifferenceIndex path keyPath = rest.length + 1 := hlen
      omega
    have hnext := getLinkedNode_denotes hread hlinks index
    rw [lookup_branch_node links path hsel]
    split
    · rename_i hempty
      have hlink : LinkDenotes hasher store (children index) (links index) := hlinks index
      rw [hnext.isEmpty_iff.1 hempty] at hlink
      rcases hlink with hlink | ⟨hne, -⟩
      · exact ⟨_, _, rfl, Visited.missing hsel hlink⟩
      · exact absurd rfl hne
    · rename_i hempty
      rw [hnext.isEmpty_iff] at hempty
      obtain ⟨result, nodePath, hlookup, hvisited⟩ := ih index hnext ((hchild index).resolve_left hempty) hrest
      rw [hlookup]
      refine ⟨_, _, rfl, hvisited.branch hsel ?_ hle⟩
      rw [hnext.hash_eq, LinkDenotes.hash_eq (hlinks index)]

end Lookup

/-- What the node paths of lookups prove: in an empty tree there are no nodes, in every other tree a
`NodePathProof` for every key. -/
def ProvesKeys (hasher : NodeHasher Hash) (source : Hash → TreeNode Hash) (encoder : Encoder Key Value Hash)
    (root : TreeNode Hash) : Prop :=
  ∀ key, ∃ result nodePath, PatriciaTree.lookup hasher source root (encoder.path key) = some (result, nodePath) ∧
    (root = .empty → result = none ∧ nodePath = []) ∧
    (root ≠ .empty → NodePathProof hasher root (encoder.path key) result nodePath)

theorem Represents.provesKeys {store source : Hash → TreeNode Hash} {encoder : Encoder Key Value Hash}
    {map : Key → Option Value} {root : TreeNode Hash} (hread : Readable hasher store source)
    (h : Represents hasher store encoder map root) : ProvesKeys hasher source encoder root := by
  intro key
  by_cases hroot : root = .empty
  · refine ⟨none, [], ?_, fun _ => ⟨rfl, rfl⟩, fun hne => absurd hroot hne⟩
    rw [hroot, PatriciaTree.lookup_empty_node]
  · obtain ⟨t, hne, ht, hd⟩ := h.exists_trie hroot
    have hlen := encoder.length_path key
    obtain ⟨result, nodePath, hlookup, hvisited⟩ := PatriciaTree.lookup_visited hread hd (ht.compact.wf hne)
      (show 2 * encoder.encodedSize ≤ (encoder.path key).length by omega)
    refine ⟨result, nodePath, hlookup, fun he => absurd he hroot, fun _ => ?_⟩
    obtain ⟨nodes, hnodes⟩ := hvisited.head
    refine ⟨by rw [hnodes]; rfl, hvisited.chain, fun value hsome => ?_, fun hnone => ?_⟩
    · obtain ⟨hvalue, hjoined, -⟩ := hvisited.found value hsome
      exact ⟨hvalue, hjoined⟩
    · refine (hvisited.not_found hnone).imp id ?_
      rintro ⟨path, value, hlast, hrest, hdepth, hneq⟩
      exact ⟨path, value, hlast, hrest, hdepth.trans hlen.symm, hneq⟩

/-- Lookups in reached trees: the node path starts with the root, every later node has the hash of the
link that the key selects in the node before it, the joined path of a key that is found is the key, and
the last node of a key that is not found is a branch without the selected link or a leaf whose joined
path parts from the key. For a tree that was saved and loaded this takes a hash that tells the saved
nodes apart. -/
theorem reached_provesKeys [DecidableEq Key] (hasher : NodeHasher Hash) (encoder : Encoder Key Value Hash) :
    (∀ (source : Hash → TreeNode Hash) (operations : List (Operation Key Value)), source hasher.zero = .empty →
      ∃ root, finalRoot hasher source encoder operations = some root ∧ ProvesKeys hasher source encoder root) ∧
    (∀ (api : DataSource hasher Source) (nodes : Set (TreeNode Hash)) (source : Source) (map : Key → Option Value)
      (root : TreeNode Hash), CollisionFree hasher nodes → Reached api nodes encoder source map root →
      ProvesKeys hasher (api.get source) encoder root) := by
  refine ⟨fun source operations hzero => ?_, fun api nodes source map root hfree h => ?_⟩
  · have hread : Readable hasher (fun _ => .empty) source := ⟨fun _ h => absurd rfl h, hzero⟩
    obtain ⟨root, hroot, hrep⟩ := Represents.run hread ⟨.empty, TrieOf.empty encoder, rfl⟩ operations
    exact ⟨root, hroot, hrep.provesKeys hread⟩
  · obtain ⟨hsound, hrep⟩ := h.represents hfree
    exact hrep.provesKeys (Sound.readable hfree hsound)

/-- Two keys with a shared nibble; and one key in a tree that has been saved. -/
theorem reached_provesKeys_sample :
    (∃ root, finalRoot codeHasher (fun _ => .empty) byteEncoder [.set 0x11 5, .set 0x12 6] = some root ∧
      ProvesKeys codeHasher (fun _ => .empty) byteEncoder root) ∧
    ProvesKeys codeHasher
      ((MemoryDataSource.api : DataSource codeHasher _).get
        (saveAll codeHasher MemoryDataSource.api.set (.leaf [1, 1] 5) MemoryDataSource.empty))
      byteEncoder (.leaf [1, 1] 5) := by
  obtain ⟨hnew, hsaved⟩ := @reached_provesKeys _ (MemoryDataSource codeHasher) _ _ _ codeHasher byteEncoder
  exact ⟨hnew (fun _ => .empty) [.set 0x11 5, .set 0x12 6] rfl,
    hsaved MemoryDataSource.api _ _ _ _ collisionFree_codeHasher
      (reached_leaf.saveAll (by simp) fun t _ => nodesIn_codeNodes t)⟩

/-- The node path of an empty tree does not start with its root node. -/
theorem nodePath_of_empty :
    Reached MemoryDataSource.api codeNodes byteEncoder (MemoryDataSource.empty : MemoryDataSource codeHasher)
      (fun _ => none) .empty ∧
    ¬ ∃ result nodePath, PatriciaTree.lookup codeHasher
        ((MemoryDataSource.api : DataSource codeHasher _).get MemoryDataSource.empty) .empty (byteEncoder.path 0x11) =
          some (result, nodePath) ∧
      nodePath.head? = some .empty := by
  refine ⟨.empty fun _ => .inl rfl, ?_⟩
  rintro ⟨result, nodePath, hlookup, hhead⟩
  rw [PatriciaTree.lookup_empty_node, Option.some.injEq, Prod.mk.injEq] at hlookup
  rw [← hlookup.2] at hhead
  cases hhead

end Catapult.Tree
