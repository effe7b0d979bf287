import Catapult.Lib.Bytes
import Catapult.Tree.Simulation

/-!
# The state tree does not depend on its history

Keys are encoded into paths of one length. `Represents` ties a node to the map that a sequence of `set` and `unset`
calls leads to: the node denotes a compact trie with exactly these keys and values. In memory a compact trie has one
node, so trees with the same map are the same tree.
-/

namespace Catapult.Tree

theorem highNibble_lt (byte : UInt8) : byte.toNat / 16 < 16 := by
  have := byte.toNat_lt
  omega

theorem lowNibble_lt (byte : UInt8) : byte.toNat % 16 < 16 := Nat.mod_lt _ (by decide)

/-- The path of a key: the nibbles of its bytes, high nibble first. -/
def treeNodePath (bytes : List UInt8) : TreeNodePath :=
  bytes.flatMap fun byte => [⟨byte.toNat / 16, highNibble_lt byte⟩, ⟨byte.toNat % 16, lowNibble_lt byte⟩]

theorem length_treeNodePath (bytes : List UInt8) : (treeNodePath bytes).length = 2 * bytes.length := by
  induction bytes with
  | nil => rfl
  | cons b bytes ih =>
    rw [treeNodePath, List.flatMap_cons, List.length_append, List.length_cons]
    rw [treeNodePath] at ih
    simp only [ih, List.length_cons, List.length_nil]
    omega

theorem treeNodePath_injective : Function.Injective treeNodePath := by
  intro l l' h
  refine flatMap_inj_of_width (by omega : 0 < 2) (fun b => by simp) (fun a b hab => ?_) h
  simp only [List.cons.injEq, Fin.mk.injEq, and_true] at hab
  exact UInt8.toNat_inj.1 (by omega)

/-- `TEncoder`, with keys that are encoded injectively and into one number of bytes. -/
structure Encoder (Key Value Hash : Type*) where
  encodeKey : Key → List UInt8
  encodeValue : Value → Hash
  encodedSize : Nat
  size_encodeKey : ∀ key, (encodeKey key).length = encodedSize
  encodeKey_injective : Function.Injective encodeKey

namespace Encoder
variable {Key Value Hash : Type*} (encoder : Encoder Key Value Hash)

def path (key : Key) : TreeNodePath := treeNodePath (encoder.encodeKey key)

theorem length_path (key : Key) : (encoder.path key).length = 2 * encoder.encodedSize := by
  rw [path, length_treeNodePath, encoder.size_encodeKey]

theorem path_injective : Function.Injective encoder.path :=
  treeNodePath_injective.comp encoder.encodeKey_injective

end Encoder

/-- The public operations of `PatriciaTree`. -/
inductive Operation (Key Value : Type*) where
  | set (key : Key) (value : Value)
  | unset (key : Key)

variable {Key Value Hash : Type*}

namespace Operation

/-- What the operation does to a map from keys to values. -/
def applyToMap [DecidableEq Key] (map : Key → Option Value) : Operation Key Value → Key → Option Value
  | set key value => Function.update map key (some value)
  | unset key => Function.update map key none

/-- What the operation does to the root node of a tree; `none` when a path is read past its end. -/
def applyToRoot (hasher : NodeHasher Hash) (source : Hash → TreeNode Hash) (encoder : Encoder Key Value Hash)
    (root : TreeNode Hash) : Operation Key Value → Option (TreeNode Hash)
  | set key value => PatriciaTree.set hasher source root (encoder.path key) (encoder.encodeValue value)
  | unset key =>
    match PatriciaTree.unset hasher source root (encoder.path key) with
    | none => none
    | some none => some root
    | some (some (updatedRoot, _)) => some updatedRoot

end Operation

def finalMap [DecidableEq Key] (operations : List (Operation Key Value)) : Key → Option Value :=
  operations.foldl Operation.applyToMap fun _ => none

def finalRoot (hasher : NodeHasher Hash) (source : Hash → TreeNode Hash) (encoder : Encoder Key Value Hash)
    (operations : List (Operation Key Value)) : Option (TreeNode Hash) :=
  operations.foldlM (Operation.applyToRoot hasher source encoder) .empty

/-- The trie maps the paths of the keys to their encoded values, and nothing else. -/
structure TrieOf (encoder : Encoder Key Value Hash) (map : Key → Option Value) (t : Trie Nibble Hash) : Prop where
  compact : t.Compact (2 * encoder.encodedSize)
  lookup_path : ∀ key, t.lookup (encoder.path key) = (map key).map encoder.encodeValue
  exists_key : ∀ path, t.lookup path ≠ none → ∃ key, path = encoder.path key

namespace TrieOf
variable {encoder : Encoder Key Value Hash} {map : Key → Option Value} {t t' : Trie Nibble Hash}

theorem eq (h : TrieOf encoder map t) (h' : TrieOf encoder map t') : t = t' := by
  refine h.compact.eq_of_lookup h'.compact fun path => ?_
  by_cases hkey : ∃ key, path = encoder.path key
  · obtain ⟨key, rfl⟩ := hkey
    rw [h.lookup_path, h'.lookup_path]
  · have hnone : ∀ {u}, TrieOf encoder map u → u.lookup path = none := fun hu => by
      by_contra hne
      exact hkey (hu.exists_key path hne)
    rw [hnone h, hnone h']

theorem empty (encoder : Encoder Key Value Hash) : TrieOf encoder (fun _ => none) .empty :=
  ⟨.inl rfl, fun _ => rfl, fun _ h => absurd rfl h⟩

variable [DecidableEq Key]

theorem insert (h : TrieOf encoder map t) (key : Key) (value : Value) :
    TrieOf encoder (Function.update map key (some value))
      (t.insert (encoder.path key) (encoder.encodeValue value)) := by
  have hc : t.Compact (encoder.path key).length := by rw [encoder.length_path]; exact h.compact
  refine ⟨?_, fun k => ?_, fun path hp => ?_⟩
  · have hwf := Trie.wf_insert hc (encoder.encodeValue value)
    rw [encoder.length_path] at hwf
    exact hwf.compact
  · rw [Trie.lookup_insert hc]
    by_cases hk : k = key
    · subst hk; simp
    · rw [if_neg fun he => hk (encoder.path_injective he), h.lookup_path, Function.update_of_ne hk]
  · rw [Trie.lookup_insert hc] at hp
    split at hp
    · rename_i hpath; exact ⟨key, hpath⟩
    · exact h.exists_key path hp

theorem erase (h : TrieOf encoder map t) (key : Key) :
    TrieOf encoder (Function.update map key none) (t.erase (encoder.path key)) := by
  refine ⟨Trie.compact_erase h.compact _, fun k => ?_, fun path hp => ?_⟩
  · rw [Trie.lookup_erase]
    by_cases hk : k = key
    · subst hk; simp
    · rw [if_neg fun he => hk (encoder.path_injective he), h.lookup_path, Function.update_of_ne hk]
  · rw [Trie.lookup_erase] at hp
    split at hp
    · exact absurd rfl hp
    · exact h.exists_key path hp

theorem erase_of_none (h : TrieOf encoder map t) {key : Key} (hkey : t.lookup (encoder.path key) = none) :
    TrieOf encoder (Function.update map key none) t := by
  have hmap : map key = none := by
    rw [h.lookup_path] at hkey
    exact Option.map_eq_none_iff.1 hkey
  rwa [← hmap, Function.update_eq_self]

end TrieOf

def Represents (hasher : NodeHasher Hash) (store : Hash → TreeNode Hash) (encoder : Encoder Key Value Hash)
    (map : Key → Option Value) (root : TreeNode Hash) : Prop :=
  ∃ t, TrieOf encoder map t ∧ Denotes hasher store t root

section Run
variable {hasher : NodeHasher Hash} {store source : Hash → TreeNode Hash} {encoder : Encoder Key Value Hash}
  {map : Key → Option Value} {root root' : TreeNode Hash} [DecidableEq Key]

omit [DecidableEq Key] in
theorem Represents.lookup (hread : Readable hasher store source) (h : Represents hasher store encoder map root)
    (key : Key) :
    ∃ nodePath, PatriciaTree.lookup hasher source root (encoder.path key) =
      some ((map key).map encoder.encodeValue, nodePath) := by
  obtain ⟨t, ht, hd⟩ := h
  have hc : t.Compact (encoder.path key).length := by rw [encoder.length_path]; exact ht.compact
  obtain ⟨nodePath, hlookup⟩ := PatriciaTree.lookup_denotes hread hd hc
  exact ⟨nodePath, by rw [hlookup, ht.lookup_path]⟩

theorem Represents.apply (hread : Readable hasher store source) (h : Represents hasher store encoder map root)
    (operation : Operation Key Value) :
    ∃ root', operation.applyToRoot hasher source encoder root = some root' ∧
      Represents hasher store encoder (operation.applyToMap map) root' := by
  obtain ⟨t, ht, hd⟩ := h
  have hc : ∀ key, t.Compact (encoder.path key).length := fun key => by rw [encoder.length_path]; exact ht.compact
  cases operation with
  | set key value =>
    obtain ⟨root', hset, hd'⟩ := PatriciaTree.set_denotes hread hd (hc key) (encoder.encodeValue value)
    exact ⟨root', hset, _, ht.insert key value, hd'⟩
  | unset key =>
    rw [Operation.applyToRoot]
    rcases PatriciaTree.unset_denotes hread hd (hc key) with ⟨hnone, hunset⟩ | ⟨-, root', canMerge, hunset, hd', -⟩
    · rw [hunset]
      exact ⟨root, rfl, t, ht.erase_of_none hnone, hd⟩
    · rw [hunset]
      exact ⟨root', rfl, _, ht.erase key, hd'⟩

theorem Represents.run (hread : Readable hasher store source) (h : Represents hasher store encoder map root)
    (operations : List (Operation Key Value)) :
    ∃ root', operations.foldlM (Operation.applyToRoot hasher source encoder) root = some root' ∧
      Represents hasher store encoder (operations.foldl Operation.applyToMap map) root' := by
  induction operations generalizing map root with
  | nil => exact ⟨root, rfl, h⟩
  | cons operation operations ih =>
    obtain ⟨next, happly, hnext⟩ := h.apply hread operation
    obtain ⟨root', hrun, hroot'⟩ := ih hnext
    refine ⟨root', ?_, hroot'⟩
    rw [List.foldlM_cons, happly]
    exact hrun

end Run

def ofTrie : Trie Nibble Hash → TreeNode Hash
  | .empty => .empty
  | .leaf path value => .leaf path value
  | .branch path children => .branch path fun i => ofTrie (children i)

theorem denotes_ofTrie (hasher : NodeHasher Hash) (store : Hash → TreeNode Hash) (t : Trie Nibble Hash) :
    Denotes hasher store t (ofTrie t) := by
  induction t with
  | empty => rfl
  | leaf path value => rfl
  | branch path children ih => exact ⟨_, rfl, fun i => .inl (ih i)⟩

theorem Denotes.eq_ofTrie {hasher : NodeHasher Hash} {t : Trie Nibble Hash} {node : TreeNode Hash}
    (h : Denotes hasher (fun _ => .empty) t node) : node = ofTrie t := by
  induction t generalizing node with
  | empty => exact h
  | leaf path value => exact h
  | branch path children ih =>
    obtain ⟨links, rfl, hlinks⟩ := h
    rw [ofTrie]
    congr 1
    funext i
    rcases hlinks i with hi | ⟨hne, -, hd⟩
    · exact ih i hi
    · exact absurd rfl (hd.ne_empty hne)

/-- Every branch of the tree has at least two links. -/
def TreeNode.Compacted : TreeNode Hash → Prop
  | branch _ links => 2 ≤ numLinks links ∧ ∀ i, (links i).Compacted
  | _ => True

theorem compacted_ofTrie {t : Trie Nibble Hash} {n : Nat} (h : t.Compact n) : (ofTrie t).Compacted := by
  induction t generalizing n with
  | empty => trivial
  | leaf path value => trivial
  | branch path children ih =>
    obtain ⟨m, -, hc, i, j, hij, hi, hj⟩ := h.wf (by simp)
    have hlink : ∀ x, children x ≠ .empty → x ∈ Finset.univ.filter fun x => !(ofTrie (children x)).isEmpty := by
      intro x hx
      cases hchild : children x with
      | empty => exact absurd hchild hx
      | leaf path value => simp [hchild, ofTrie, TreeNode.isEmpty]
      | branch path children' => simp [hchild, ofTrie, TreeNode.isEmpty]
    exact ⟨Finset.one_lt_card.2 ⟨i, hlink i hi, j, hlink j hj, hij⟩, fun x => ih x (hc x)⟩

/-- Operations that lead to the same map lead to the same tree, setting and unsetting a new key restores
the tree, and no branch is left with fewer than two links; for every hash and for every data source
that has no node for the zero hash. -/
theorem history_independent [DecidableEq Key] (hasher : NodeHasher Hash) (source : Hash → TreeNode Hash)
    (encoder : Encoder Key Value Hash) (hzero : source hasher.zero = .empty) :
    (∀ operations operations' : List (Operation Key Value), finalMap operations = finalMap operations' →
      ∃ root, finalRoot hasher source encoder operations = some root ∧
        finalRoot hasher source encoder operations' = some root) ∧
    (∀ (operations : List (Operation Key Value)) key value, finalMap operations key = none →
      finalRoot hasher source encoder (operations ++ [Operation.set key value, .unset key]) =
        finalRoot hasher source encoder operations) ∧
    (∀ (operations : List (Operation Key Value)) root, finalRoot hasher source encoder operations = some root →
      root.Compacted) := by
  have hread : Readable hasher (fun _ => .empty) source := ⟨fun _ h => absurd rfl h, hzero⟩
  have hrun : ∀ operations : List (Operation Key Value), ∃ t, TrieOf encoder (finalMap operations) t ∧
      finalRoot hasher source encoder operations = some (ofTrie t) := by
    intro operations
    obtain ⟨root, hroot, t, ht, hd⟩ := Represents.run hread ⟨.empty, TrieOf.empty encoder, rfl⟩ operations
    exact ⟨t, ht, hroot.trans (congrArg some hd.eq_ofTrie)⟩
  have hsame : ∀ operations operations' : List (Operation Key Value), finalMap operations = finalMap operations' →
      ∃ root, finalRoot hasher source encoder operations = some root ∧
        finalRoot hasher source encoder operations' = some root := by
    intro operations operations' hmap
    obtain ⟨t, ht, hroot⟩ := hrun operations
    obtain ⟨t', ht', hroot'⟩ := hrun operations'
    rw [hmap] at ht
    exact ⟨ofTrie t, hroot, by rw [hroot', ht.eq ht']⟩
  refine ⟨hsame, fun operations key value hnew => ?_, fun operations root hroot => ?_⟩
  · have hmap : finalMap (operations ++ [Operation.set key value, .unset key]) = finalMap operations := by
      rw [finalMap, List.foldl_append]
      show Function.update (Function.update (finalMap operations) key (some value)) key none = finalMap operations
      rw [Function.update_idem, ← hnew, Function.update_eq_self]
    obtain ⟨root, h1, h2⟩ := hsame _ _ hmap
    rw [h1, h2]
  · obtain ⟨t, ht, hroot'⟩ := hrun operations
    rw [hroot, Option.some.injEq] at hroot'
    rw [hroot']
    exact compacted_ofTrie ht.compact

def byteEncoder : Encoder UInt8 Nat Nat where
  encodeKey key := [key]
  encodeValue value := value
  encodedSize := 1
  size_encodeKey _ := rfl
  encodeKey_injective _ _ h := List.singleton_inj.1 h

def sumHasher : NodeHasher Nat where
  leaf path value := path.length + value
  branch path links := path.length + links 0 + links 1
  zero := 0

/-- Two keys that share a nibble, set in both orders. -/
theorem history_independent_sample :
    ∃ root, finalRoot sumHasher (fun _ => .empty) byteEncoder [.set 0x11 5, .set 0x12 6] = some root ∧
      finalRoot sumHasher (fun _ => .empty) byteEncoder [.set 0x12 6, .set 0x11 5] = some root :=
  (history_independent sumHasher (fun _ => .empty) byteEncoder rfl).1 _ _
    (Function.update_comm (by decide) _ _ _)

end Catapult.Tree
