import Catapult.Cache.MerkleRoot

/-!
# The merkle root stands for the content of a cache

Nodes store their caches in different ways and come to a state along different ways. As long as the hash tells the saved
nodes apart, the merkle roots of two caches are equal if and only if the caches have the same keys with the same encoded
values.
-/

namespace Catapult.Tree
variable {Key Value Hash : Type*} {hasher : NodeHasher Hash} {nodes : Set (TreeNode Hash)}
  {encoder : Encoder Key Value Hash} {map map' : Key → Option Value} {t t' : Trie Nibble Hash}

theorem NodesIn.eq_of_hash (hfree : CollisionFree hasher nodes) (h : NodesIn hasher nodes t)
    (h' : NodesIn hasher nodes t') (heq : trieHash hasher t = trieHash hasher t') : t = t' := by
  have hsaved : ∀ {t t'}, NodesIn hasher nodes t → NodesIn hasher nodes t' → t ≠ .empty →
      trieHash hasher t = trieHash hasher t' → savedNode hasher t = savedNode hasher t' := by
    intro t t' h h' ht heq
    have ht' : t' ≠ .empty := by
      rintro rfl
      exact trieHash_ne_zero hfree h ht heq
    exact hfree.inj (h.mem ht) (h'.mem ht') (by simpa only [hash_savedNode] using heq)
  induction t generalizing t' with
  | empty =>
    by_contra hne
    exact trieHash_ne_zero hfree h' (Ne.symm hne) heq.symm
  | leaf path value =>
    have hnode := hsaved h h' (by simp) heq
    cases t' <;> cases hnode
    rfl
  | branch path children ih =>
    have hnode := hsaved h h' (by simp) heq
    cases t' with
    | empty | leaf => cases hnode
    | branch path' children' =>
      obtain ⟨rfl, hlinks⟩ := TreeNode.branch.inj hnode
      have hchildren : children = children' := funext fun i => by
        have hlink := congrArg (TreeNode.hash hasher) (congrFun hlinks i)
        rw [hash_linkTo, hash_linkTo] at hlink
        exact ih i (h.2 i) (h'.2 i) hlink
      rw [hchildren]

/-- The hashes are equal exactly when the tries stand for maps with the same encoded values. -/
theorem TrieOf.hash_eq_iff (hfree : CollisionFree hasher nodes) (h : TrieOf encoder map t)
    (h' : TrieOf encoder map' t') (hin : NodesIn hasher nodes t) (hin' : NodesIn hasher nodes t') :
    trieHash hasher t = trieHash hasher t' ↔
      ∀ key, (map key).map encoder.encodeValue = (map' key).map encoder.encodeValue := by
  constructor
  · intro hhash key
    rw [← h.lookup_path, ← h'.lookup_path, hin.eq_of_hash hfree hin' hhash]
  · intro hvalues
    have hsame : TrieOf encoder map t' :=
      ⟨h'.compact, fun key => (h'.lookup_path key).trans (hvalues key).symm, h'.exists_key⟩
    rw [h.eq hsame]

end Catapult.Tree

namespace Catapult.Cache
open DeltaSet Tree

variable {Storage Memory Storage' Memory' Key Value Hash Source Source' : Type*} [DecidableEq Key] [DecidableEq Hash]
  [Container Storage Key Value] [Container Memory Key Value] [Container Storage' Key Value]
  [Container Memory' Key Value] {hasher : NodeHasher Hash} {api : DataSource hasher Source}
  {nodes : Set (TreeNode Hash)} {encoder : Encoder Key Value Hash} {source : Source}
  {traits : Option (ActivityTraits Value)}

theorem trieOf_updated (hfree : CollisionFree hasher nodes) (hactive : AlwaysActive traits)
    {set : BaseSetDelta Storage Memory Key} {tree : BasePatriciaTreeDelta hasher} (hset : set.Invariant)
    (htree : DeltaRefines api nodes encoder source set.find tree) (operations : List (CacheOperation Key Value))
    (height : UInt64) (hnodes : (CacheDelta.create set tree).SavesIn api nodes encoder source traits
      (operations ++ [.updateMerkleRoot height])) :
    ∃ cache, (CacheDelta.create set tree).run api encoder source traits
        (operations ++ [.updateMerkleRoot height]) = some cache ∧
      ∃ t, TrieOf encoder cache.set.find t ∧ NodesIn hasher nodes t ∧
        cache.tree.root.hash hasher = trieHash hasher t := by
  have hinit : Tracks api nodes encoder source traits (CacheDelta.create set tree) set.find fun _ => (false, none) :=
    ⟨hset, htree, rfl, fun _ h => (Bool.false_ne_true h).elim, fun _ _ => rfl⟩
  obtain ⟨before, beforeMap, hrun, hbefore⟩ := hinit.run hfree operations (fun _ _ after _ _ heq =>
    hnodes _ _ (after ++ [.updateMerkleRoot height]) _ _ (by rw [heq, List.append_assoc]; rfl)) (.inl hactive)
  obtain ⟨cache, treeMap, hupdate, -, htracks, t, ht, hin, hhash⟩ := hbefore.update hfree (.inl hactive) height
    fun last => hnodes operations height [] before last rfl hrun
  have hmap : treeMap = cache.set.find := funext fun key => by
    rw [htracks.applied key (logStep_update _ _ _), hactive.treeValue]
  refine ⟨cache, ?_, t, hmap ▸ ht, hin, hhash⟩
  rw [CacheDelta.run] at hrun
  rw [CacheDelta.run, List.foldlM_append, hrun]
  show (before.updateMerkleRoot api encoder source traits height).bind some = _
  rw [hupdate]
  rfl

/-- Two caches that were changed in any way and then updated: their merkle roots are equal if and only if their contents
are. Nothing is shared by their implementations but the serialization and the hash, which tells the nodes apart that the
two have and that their updates save. -/
theorem merkleRoot_eq_iff {nodes : Set (TreeNode Hash)} (hfree : CollisionFree hasher nodes)
    (hactive : AlwaysActive traits) (api : DataSource hasher Source) (api' : DataSource hasher Source')
    (encoder : Encoder Key Value Hash) (source : Source) (source' : Source') (set : BaseSetDelta Storage Memory Key)
    (set' : BaseSetDelta Storage' Memory' Key) (tree tree' : BasePatriciaTreeDelta hasher) (hset : set.Invariant)
    (hset' : set'.Invariant) (htree : DeltaRefines api nodes encoder source set.find tree)
    (htree' : DeltaRefines api' nodes encoder source' set'.find tree')
    (operations operations' : List (CacheOperation Key Value)) (height height' : UInt64)
    (hnodes : (CacheDelta.create set tree).SavesIn api nodes encoder source traits
      (operations ++ [.updateMerkleRoot height]))
    (hnodes' : (CacheDelta.create set' tree').SavesIn api' nodes encoder source' traits
      (operations' ++ [.updateMerkleRoot height'])) :
    ∃ cache cache',
      (CacheDelta.create set tree).run api encoder source traits (operations ++ [.updateMerkleRoot height]) =
        some cache ∧
      (CacheDelta.create set' tree').run api' encoder source' traits (operations' ++ [.updateMerkleRoot height']) =
        some cache' ∧
      (cache.tree.root.hash hasher = cache'.tree.root.hash hasher ↔
        ∀ key, (cache.set.find key).map encoder.encodeValue = (cache'.set.find key).map encoder.encodeValue) := by
  obtain ⟨cache, hrun, t, ht, hin, hhash⟩ := trieOf_updated hfree hactive hset htree operations height hnodes
  obtain ⟨cache', hrun', t', ht', hin', hhash'⟩ :=
    trieOf_updated hfree hactive hset' htree' operations' height' hnodes'
  refine ⟨cache, cache', hrun, hrun', ?_⟩
  rw [hhash, hhash']
  exact ht.hash_eq_iff hfree ht' hin hin'

/-- A key that is added and removed again leaves no trace in the root. -/
theorem merkleRoot_eq_iff_sample : ∃ cache cache',
    (CacheDelta.create emptySet emptyTree).run MemoryDataSource.api byteEncoder MemoryDataSource.empty none
      ([.change (.insert 0x11 5), .updateMerkleRoot 10, .change (.insert 0x12 7), .change (.remove 0x12)] ++
        [.updateMerkleRoot 20]) = some cache ∧
    (CacheDelta.create emptySet emptyTree).run MemoryDataSource.api byteEncoder MemoryDataSource.empty none
      ([.change (.insert 0x11 5)] ++ [.updateMerkleRoot 10]) = some cache' ∧
    (cache.tree.root.hash codeHasher = cache'.tree.root.hash codeHasher ↔
      ∀ key, (cache.set.find key).map byteEncoder.encodeValue = (cache'.set.find key).map byteEncoder.encodeValue) :=
  merkleRoot_eq_iff collisionFree_codeHasher (fun _ _ => rfl) MemoryDataSource.api MemoryDataSource.api byteEncoder
    MemoryDataSource.empty MemoryDataSource.empty emptySet emptySet emptyTree emptyTree
    (BaseSetDelta.invariant_create _) (BaseSetDelta.invariant_create _) deltaRefines_empty deltaRefines_empty _ _ 20 10
    (fun _ _ _ _ _ _ _ _ t _ => nodesIn_codeNodes t) fun _ _ _ _ _ _ _ _ t _ => nodesIn_codeNodes t

end Catapult.Cache
