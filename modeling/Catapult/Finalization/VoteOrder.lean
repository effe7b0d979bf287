import Mathlib.Data.List.Rotate
import Catapult.Finalization.RoundContext

/-!
# When the order of the votes matters

The weights of a round context are sums over the accepted votes, so the order in which votes arrive shows only in the
hash tree, and there only in the parent pointers: the tree keeps the first node inserted for a key, without a parent
when the branch starts there. `SharedParents` says that all prevotes give every key the same parent (or none); then
every order of the votes leads to the same outcome.

For prevotes taken from one block tree the condition is also necessary.
-/

namespace Catapult.Finalization
open FinalizationHashTree

/-- The keys follow each other, from the predecessor `prev`, as `parent` says. -/
def Steps (parent : HeightHashPair → Option HeightHashPair) : Option HeightHashPair → List HeightHashPair → Prop
  | _, [] => True
  | prev, key :: keys => parent key = prev ∧ Steps parent (some key) keys

namespace TreeNode
variable {parent : HeightHashPair → Option HeightHashPair}

/-- The parent pointers of the chain of the node are those that `parent` gives. -/
def Follows (parent : HeightHashPair → Option HeightHashPair) : TreeNode → Prop
  | root key => parent key = none
  | child key pParent => parent key = some pParent.key ∧ pParent.Follows parent

theorem Follows.unique {n m : TreeNode} (hn : n.Follows parent) (hm : m.Follows parent) (hkey : n.key = m.key) :
    n = m := by
  induction n generalizing m with
  | root k =>
    cases m with
    | root k' => exact congrArg root hkey
    | child k' p' =>
      have h1 : parent k = none := hn
      have h2 : parent k' = some p'.key := hm.1
      rw [show k = k' from hkey, h2] at h1; cases h1
  | child k p ih =>
    cases m with
    | root k' =>
      have h1 : parent k = some p.key := hn.1
      have h2 : parent k' = none := hm
      rw [show k = k' from hkey, h2] at h1; cases h1
    | child k' p' =>
      have hk : k = k' := hkey
      subst hk
      have h1 := hn.1.symm.trans hm.1
      rw [ih hn.2 hm.2 (Option.some.inj h1)]

theorem Follows.make {key : HeightHashPair} {pParent : Option TreeNode} (hkey : parent key = pParent.map TreeNode.key)
    (hp : ∀ p ∈ pParent, p.Follows parent) : (TreeNode.make key pParent).Follows parent := by
  cases pParent with
  | none => exact hkey
  | some p => exact ⟨hkey, hp p rfl⟩

end TreeNode

namespace FinalizationHashTree
variable {parent : HeightHashPair → Option HeightHashPair} {tree : FinalizationHashTree}

/-- All parent pointers of the tree are those that `parent` gives. -/
def Follows (parent : HeightHashPair → Option HeightHashPair) (tree : FinalizationHashTree) : Prop :=
  ∀ ⦃key node⦄, tree.tryFindNode key = some node → node.Follows parent

theorem Follows.insert (h : tree.Follows parent) {node : TreeNode} (hn : node.Follows parent) :
    (tree.insert node).1.Follows parent ∧ (tree.insert node).2.Follows parent := by
  have h2 : (tree.insert node).2.Follows parent := by
    unfold FinalizationHashTree.insert
    split
    · rename_i existing hex; exact h hex
    · exact hn
  refine ⟨fun key m hm => ?_, h2⟩
  rw [tryFindNode_insert] at hm
  split at hm
  · cases hm; exact h2
  · exact h hm

theorem Follows.addKeys {pParent : Option TreeNode} {keys : List HeightHashPair} (h : tree.Follows parent)
    (hp : ∀ p ∈ pParent, p.Follows parent) (hsteps : Steps parent (pParent.map TreeNode.key) keys) :
    (tree.addKeys pParent keys).Follows parent := by
  induction keys generalizing tree pParent with
  | nil => exact h
  | cons key keys ih =>
    have hins := h.insert (TreeNode.Follows.make hsteps.1 hp)
    rw [addKeys_cons]
    refine ih hins.1 (fun p hp' => Option.some.inj hp' ▸ hins.2) ?_
    rw [Option.map_some, key_insert, TreeNode.key_make]
    exact hsteps.2

theorem Follows.tryFindNode_eq {tree' : FinalizationHashTree} (h : tree.Follows parent) (h' : tree'.Follows parent)
    (hkeys : ∀ key, tree.contains key = tree'.contains key) (key : HeightHashPair) :
    tree.tryFindNode key = tree'.tryFindNode key := by
  have hk := hkeys key
  simp only [FinalizationHashTree.contains] at hk
  cases hn : tree.tryFindNode key with
  | none => cases hn' : tree'.tryFindNode key with
    | none => rfl
    | some n' => simp [hn, hn'] at hk
  | some n => cases hn' : tree'.tryFindNode key with
    | none => simp [hn, hn'] at hk
    | some n' =>
      rw [(h hn).unique (h' hn') ((key_of_tryFindNode hn).trans (key_of_tryFindNode hn').symm)]

theorem tryFindNode_addKeys_next {pParent : Option TreeNode} {pre post : List HeightHashPair} {p key : HeightHashPair}
    (hnew : tree.contains key = false) (hkey : key ∉ pre ++ [p]) :
    ∃ node, node.key = p ∧ (tree.addKeys pParent (pre ++ p :: key :: post)).tryFindNode key =
      some (.child key node) := by
  induction pre generalizing tree pParent with
  | nil =>
    have hkp : key ≠ p := by simpa using hkey
    rw [List.nil_append, addKeys_cons, addKeys_cons]
    refine ⟨(tree.insert (TreeNode.make p pParent)).2, by rw [key_insert, TreeNode.key_make],
      tryFindNode_addKeys_of_some ?_⟩
    have hnone : (tree.insert (TreeNode.make p pParent)).1.tryFindNode key = none := by
      rw [tryFindNode_insert, if_neg (by simpa using hkp)]
      simpa [FinalizationHashTree.contains] using hnew
    rw [tryFindNode_insert, TreeNode.key_make, if_pos rfl, insert_of_none (by simpa using hnone)]
    rfl
  | cons a pre ih =>
    rw [List.cons_append, addKeys_cons]
    refine ih ?_ (fun h => hkey (List.mem_cons_of_mem _ h))
    have hka : key ≠ a := fun h => hkey (h ▸ List.mem_cons_self ..)
    rw [← Bool.not_eq_true, contains_insert, TreeNode.key_make]
    simp [hka, hnew]

end FinalizationHashTree

namespace RoundContext
open Vote
variable {votes votes' : List Vote} {weight threshold : UInt64}

structure SameOutcome (ctx ctx' : RoundContext) : Prop where
  weights : ∀ key, ctx.weights key = ctx'.weights key
  tryFindBestPrevote : ctx.tryFindBestPrevote = ctx'.tryFindBestPrevote
  tryFindBestPrecommit : ctx.tryFindBestPrecommit = ctx'.tryFindBestPrecommit
  tryFindEstimate : ctx.tryFindEstimate = ctx'.tryFindEstimate
  isCompletable : ctx.isCompletable = ctx'.isCompletable
  isDescendant : ∀ parentKey childKey, ctx.isDescendant parentKey childKey = ctx'.isDescendant parentKey childKey

/-- All prevotes give every key the same parent, or all of them start there. -/
def SharedParents (votes : List Vote) : Prop :=
  ∃ parent, ∀ v ∈ votes, Steps parent none v.prevoteKeys

theorem treeOf_follows {parent : HeightHashPair → Option HeightHashPair}
    (h : ∀ v ∈ votes, Steps parent none v.prevoteKeys) : (treeOf votes).Follows parent := by
  induction votes using List.reverseRecOn with
  | nil => intro key node hn; simp [treeOf] at hn
  | append_singleton votes v ih =>
    have ih := ih fun u hu => h u (List.mem_append_left _ hu)
    cases v with
    | prevote height hashes hcount w =>
      rw [treeOf_concat_prevote]
      exact ih.addKeys (fun p hp => by simp at hp) (h _ (List.mem_append_right _ (List.mem_singleton.2 rfl)))
    | precommit height hash w => rwa [treeOf_concat_precommit]

theorem contains_treeOf (votes : List Vote) (key : HeightHashPair) :
    (treeOf votes).contains key = true ↔ ∃ v ∈ votes, key ∈ v.prevoteKeys := by
  induction votes using List.reverseRecOn with
  | nil => simp [treeOf, FinalizationHashTree.contains]
  | append_singleton votes v ih =>
    have hex : (∃ u ∈ votes ++ [v], key ∈ u.prevoteKeys) ↔ (∃ u ∈ votes, key ∈ u.prevoteKeys) ∨
        key ∈ v.prevoteKeys := by
      simp only [List.mem_append, List.mem_singleton, or_and_right, exists_or, exists_eq_left]
    rw [hex, ← ih]
    cases v with
    | prevote height hashes hcount w => rw [treeOf_concat_prevote, contains_addBranch]; rfl
    | precommit height hash w => simp [prevoteKeys]

@[simp] theorem acceptPrevoteKey_totals (w : UInt64) (ctx : RoundContext) (key : HeightHashPair) :
    (acceptPrevoteKey w ctx key).totalWeight = ctx.totalWeight ∧
      (acceptPrevoteKey w ctx key).threshold = ctx.threshold := by
  unfold acceptPrevoteKey; split <;> exact ⟨rfl, rfl⟩

theorem accept_totals (ctx : RoundContext) (v : Vote) :
    (ctx.accept v).totalWeight = ctx.totalWeight ∧ (ctx.accept v).threshold = ctx.threshold := by
  cases v with
  | prevote height hashes hcount w =>
    have hfold : ∀ (keys : List HeightHashPair) (c : RoundContext),
        (keys.foldl (acceptPrevoteKey w) c).totalWeight = c.totalWeight ∧
          (keys.foldl (acceptPrevoteKey w) c).threshold = c.threshold := by
      intro keys
      induction keys with
      | nil => exact fun c => ⟨rfl, rfl⟩
      | cons key keys ih =>
        intro c
        have h := ih (acceptPrevoteKey w c key)
        rw [(acceptPrevoteKey_totals w c key).1, (acceptPrevoteKey_totals w c key).2] at h
        exact h
    exact hfold _ _
  | precommit height hash w =>
    unfold accept acceptPrecommit
    simp only
    split <;> exact ⟨rfl, rfl⟩

theorem run_totals (weight threshold : UInt64) (votes : List Vote) :
    (run weight threshold votes).totalWeight = weight ∧ (run weight threshold votes).threshold = threshold := by
  induction votes using List.reverseRecOn with
  | nil => exact ⟨rfl, rfl⟩
  | append_singleton votes v ih =>
    have hrun : run weight threshold (votes ++ [v]) = (run weight threshold votes).accept v := by simp [run]
    rw [hrun, (accept_totals _ v).1, (accept_totals _ v).2]
    exact ih

theorem sameOutcome_of_eq {ctx ctx' : RoundContext} (htotal : ctx.totalWeight = ctx'.totalWeight)
    (hthreshold : ctx.threshold = ctx'.threshold)
    (hcumulative : ctx.cumulativePrecommitWeight = ctx'.cumulativePrecommitWeight)
    (hcandidates : ctx.candidates = ctx'.candidates)
    (htree : ∀ key, ctx.tree.tryFindNode key = ctx'.tree.tryFindNode key) :
    SameOutcome ctx ctx' := by
  have hdesc : ctx.tree.isDescendant = ctx'.tree.isDescendant := by
    funext a key; simp only [FinalizationHashTree.isDescendant, htree]
  have hreach : ctx.canReachPrecommitThreshold = ctx'.canReachPrecommitThreshold := by
    funext w; simp only [canReachPrecommitThreshold, htotal, hthreshold, hcumulative]
  have hmatch : ctx.tryFindLastMatch = ctx'.tryFindLastMatch := by
    funext p; simp only [tryFindLastMatch, hcandidates]
  have hestimate : ctx.tryFindEstimateFor = ctx'.tryFindEstimateFor := by
    funext p; simp only [tryFindEstimateFor, hmatch, hdesc, hreach]
  have hprevote : ctx.tryFindBestPrevote = ctx'.tryFindBestPrevote := by
    simp only [RoundContext.tryFindBestPrevote, hmatch, hthreshold]
  refine ⟨fun key => ?_, hprevote, ?_, ?_, ?_, fun a key => ?_⟩
  · simp only [RoundContext.weights, hcandidates]
  · simp only [RoundContext.tryFindBestPrecommit, hmatch, hthreshold]
  · simp only [RoundContext.tryFindEstimate, hprevote, hestimate]
  · simp only [RoundContext.isCompletable, hprevote, hestimate, hreach, hdesc, hcandidates]
  · simp only [RoundContext.isDescendant, hdesc]

theorem run_sameOutcome (weight threshold : UInt64) (hshared : SharedParents votes) (hperm : votes'.Perm votes) :
    SameOutcome (run weight threshold votes') (run weight threshold votes) := by
  obtain ⟨parent, hparent⟩ := hshared
  have hkeys : ∀ key, (treeOf votes').contains key = (treeOf votes).contains key := by
    intro key
    rw [Bool.eq_iff_iff, contains_treeOf, contains_treeOf]
    simp only [hperm.mem_iff]
  have hfollows' : (treeOf votes').Follows parent := treeOf_follows fun v hv => hparent v (hperm.mem_iff.1 hv)
  have htree := hfollows'.tryFindNode_eq (treeOf_follows hparent) hkeys
  have hdesc : (treeOf votes').isDescendant = (treeOf votes).isDescendant := by
    funext a key; simp only [FinalizationHashTree.isDescendant, htree]
  have hcontains : (treeOf votes').contains = (treeOf votes).contains := funext hkeys
  have hprecommit : ∀ p, precommitWeight votes' p = precommitWeight votes p := fun p => weightOf_perm hperm
  have h' := counts_run weight threshold votes'
  have h := counts_run weight threshold votes
  refine sameOutcome_of_eq ((run_totals ..).1.trans (run_totals ..).1.symm)
    ((run_totals ..).2.trans (run_totals ..).2.symm) ?_ (SortedMap.ext_find? fun key => ?_) fun key => ?_
  · rw [h'.cumulative, h.cumulative, hcontains, hprecommit]
  · rw [h'.find_candidate, h.find_candidate, hcontains, hdesc, hprecommit,
      show prevoteWeight votes' key = prevoteWeight votes key from weightOf_perm hperm]
  · rw [h'.tree_eq, h.tree_eq, htree]

end RoundContext

/-- One block tree: every hash has one height and one parent. -/
structure BlockTree where
  heightOf : Hash256 → UInt64
  parentOf : Hash256 → Hash256

namespace Vote

def InTree (blocks : BlockTree) (v : Vote) : Prop :=
  (∀ key ∈ v.prevoteKeys, key.height = blocks.heightOf key.hash) ∧
    v.prevoteKeys.IsChain fun a b => a.hash = blocks.parentOf b.hash

/-- No prevote starts at a key that a prevote continues through. -/
def NoInnerStart (votes : List Vote) : Prop :=
  ∀ u ∈ votes, ∀ v ∈ votes, ∀ key ∈ v.prevoteKeys.head?, key ∉ u.prevoteKeys.tail

theorem prevoteKeys_nodup (v : Vote) : v.prevoteKeys.Nodup := by
  cases v with
  | prevote height hashes hcount w => exact branchKeys_nodup height hcount
  | precommit => exact List.nodup_nil

end Vote

namespace RoundContext
open Vote
variable {votes votes' : List Vote} {weight threshold : UInt64} {blocks : BlockTree}

theorem steps_branchKeys {parent : HeightHashPair → Option HeightHashPair} {height : UInt64} {hash : Hash256}
    {hashes : List Hash256}
    (hchain : (branchKeys height (hash :: hashes)).IsChain fun a b => a.hash = blocks.parentOf b.hash)
    (hparent : ∀ key ∈ branchKeys (height + 1) hashes, parent key = some ⟨key.height - 1, blocks.parentOf key.hash⟩) :
    Steps parent (some ⟨height, hash⟩) (branchKeys (height + 1) hashes) := by
  induction hashes generalizing height hash with
  | nil => trivial
  | cons hash' hashes ih =>
    obtain ⟨hrel, htail⟩ := List.isChain_cons_cons.1 hchain
    refine ⟨?_, ih htail fun key hkey => hparent key (List.mem_cons_of_mem _ hkey)⟩
    rw [hparent _ (List.mem_cons_self ..)]
    have hh : height + 1 - 1 = height := by grind
    simp only at hrel
    simp [hh, ← hrel]

theorem sharedParents_of_noInnerStart (htree : ∀ v ∈ votes, v.InTree blocks) (hno : NoInnerStart votes) :
    SharedParents votes := by
  classical
  refine ⟨fun key => if ∃ v ∈ votes, key ∈ v.prevoteKeys.head? then none
    else some ⟨key.height - 1, blocks.parentOf key.hash⟩, fun v hv => ?_⟩
  cases v with
  | precommit => trivial
  | prevote height hashes hcount w =>
    cases hashes with
    | nil => trivial
    | cons hash hashes =>
      refine ⟨if_pos ⟨_, hv, rfl⟩, steps_branchKeys (htree _ hv).2 fun key hkey => if_neg ?_⟩
      rintro ⟨u, hu, hhead⟩
      exact hno _ hv u hu key hhead hkey

theorem tryFindNode_treeOf_cons {v : Vote} {key : HeightHashPair} {node : TreeNode}
    (h : (FinalizationHashTree.addKeys {} none v.prevoteKeys).tryFindNode key = some node) (votes : List Vote) :
    (treeOf (v :: votes)).tryFindNode key = some node := by
  have hfirst : (treeOf [v]).tryFindNode key = some node := by
    cases v with
    | prevote height hashes hcount w => exact h
    | precommit height hash w => simp [prevoteKeys, FinalizationHashTree.addKeys] at h
  have hrest : ∀ (us : List Vote), (treeOf ([v] ++ us)).tryFindNode key = some node := by
    intro us
    induction us using List.reverseRecOn with
    | nil => simpa using hfirst
    | append_singleton us u ih =>
      rw [← List.append_assoc]
      cases u with
      | prevote height hashes hcount w =>
        rw [treeOf_concat_prevote]; exact tryFindNode_addKeys_of_some ih
      | precommit height hash w => rwa [treeOf_concat_precommit]
  exact hrest votes

theorem noInnerStart_of_sameOutcome
    (h : ∀ votes', votes'.Perm votes → SameOutcome (run weight threshold votes') (run weight threshold votes)) :
    NoInnerStart votes := by
  intro u hu v hv key hhead htail
  obtain ⟨keys, hkeys⟩ : ∃ keys, v.prevoteKeys = key :: keys := List.head?_eq_some_iff.1 hhead
  -- `key` is not the first key of `u`: let `p` be the one before it
  obtain ⟨first, rest, hufull⟩ : ∃ first rest, u.prevoteKeys = first :: rest := by
    cases hk : u.prevoteKeys with
    | nil => simp [hk] at htail
    | cons first rest => exact ⟨first, rest, rfl⟩
  rw [hufull, List.tail_cons] at htail
  obtain ⟨mid, post, rfl⟩ := List.append_of_mem htail
  obtain ⟨pre, p, hpre⟩ : ∃ pre p, first :: mid = pre ++ [p] := by
    refine ⟨(first :: mid).dropLast, (first :: mid).getLast (by simp), ?_⟩
    rw [List.dropLast_append_getLast]
  have hu' : u.prevoteKeys = pre ++ p :: key :: post := by
    rw [hufull, ← List.cons_append, hpre]; simp
  have hnotin : key ∉ pre ++ [p] := by
    have hnd := u.prevoteKeys_nodup
    rw [hu', show pre ++ p :: key :: post = (pre ++ [p]) ++ key :: post by simp] at hnd
    exact fun hmem => (List.disjoint_of_nodup_append hnd) hmem (List.mem_cons_self ..)
  -- with `v` first the key has no parent, with `u` first it has the parent `p`
  have hroot : (treeOf (v :: votes.erase v)).tryFindNode key = some (.root key) := by
    refine tryFindNode_treeOf_cons ?_ _
    rw [hkeys, addKeys_cons]
    refine tryFindNode_addKeys_of_some ?_
    rw [tryFindNode_insert, TreeNode.key_make, if_pos rfl, insert_of_none rfl]
    rfl
  obtain ⟨node, hnode, hchild⟩ : ∃ node, node.key = p ∧
      (treeOf (u :: votes.erase u)).tryFindNode key = some (.child key node) := by
    obtain ⟨node, hnode, hfind⟩ : ∃ node, node.key = p ∧
        (FinalizationHashTree.addKeys {} none (pre ++ p :: key :: post)).tryFindNode key = some (.child key node) :=
      tryFindNode_addKeys_next (by simp [FinalizationHashTree.contains]) hnotin
    exact ⟨node, hnode, tryFindNode_treeOf_cons (hu' ▸ hfind) _⟩
  have hv' := (h _ (List.perm_cons_erase hv).symm).isDescendant p key
  have hu' := (h _ (List.perm_cons_erase hu).symm).isDescendant p key
  have heq := hv'.trans hu'.symm
  have hne : key ≠ p := fun hkp => hnotin (by simp [hkp])
  simp only [RoundContext.isDescendant, (counts_run ..).tree_eq, FinalizationHashTree.isDescendant, hroot, hchild,
    TreeNode.chain, List.any_cons, TreeNode.key_root, TreeNode.key_child, List.any_nil, beq_false_of_ne hne,
      Bool.or_false, Bool.false_or] at heq
  have hmem : node.chain.any (fun n => n.key == p) = true :=
    List.any_eq_true.2 ⟨node, node.self_mem_chain, by simp [hnode]⟩
  rw [hmem] at heq
  cases heq

/-- For prevotes from one block tree, every order of the votes leads to the same outcome if and only
if no prevote starts at a key that a prevote continues through. -/
theorem run_order_independent_iff (weight threshold : UInt64) (blocks : BlockTree) (votes : List Vote)
    (htree : ∀ v ∈ votes, v.InTree blocks) :
    (∀ votes', votes'.Perm votes → SameOutcome (run weight threshold votes') (run weight threshold votes)) ↔
      NoInnerStart votes :=
  ⟨noInnerStart_of_sameOutcome, fun hno _ hperm =>
    run_sameOutcome weight threshold (sharedParents_of_noInnerStart htree hno) hperm⟩

def forkedBlocks : BlockTree where
  heightOf hash := if hash = 1 then 7 else 8
  parentOf _ := 1

theorem twoHashes_lt : ([1, 2] : List Hash256).length < 2 ^ 32 := by decide

def forkedVotes : List Vote :=
  [.prevote 8 [2] (by decide) 100, .prevote 7 [1, 2] twoHashes_lt 300, .prevote 7 [1, 3] (by decide) 400,
    .precommit 8 2 350, .precommit 8 3 350]

theorem forkedVotes_inTree : ∀ v ∈ forkedVotes, v.InTree forkedBlocks := by
  simp [forkedVotes, Vote.InTree, prevoteKeys, branchKeys, forkedBlocks]

/-- The prevote for the inner hash arrives first or last: hash 1 is finalized only in the second case. -/
theorem run_order_matters : ¬ ∀ (weight threshold : UInt64) (blocks : BlockTree) (votes votes' : List Vote),
    (∀ v ∈ votes, v.InTree blocks) → votes'.Perm votes →
      SameOutcome (run weight threshold votes') (run weight threshold votes) := by
  intro h
  have hperm : (forkedVotes.rotate 1).Perm forkedVotes := List.rotate_perm _ _
  have hsame := (h 1000 670 forkedBlocks forkedVotes (forkedVotes.rotate 1) forkedVotes_inTree
    hperm).tryFindBestPrecommit
  have hfirst : (run 1000 670 forkedVotes).tryFindBestPrecommit = none := by decide +kernel
  have hlast : (run 1000 670 (forkedVotes.rotate 1)).tryFindBestPrecommit = some ⟨7, 1⟩ := by decide +kernel
  rw [hfirst, hlast] at hsame
  cases hsame

/-- Without the inner prevote the remaining votes meet the condition. -/
theorem run_order_independent_fork : NoInnerStart forkedVotes.tail ∧
    ∀ votes', votes'.Perm forkedVotes.tail → SameOutcome (run 1000 670 votes') (run 1000 670 forkedVotes.tail) := by
  have hno : NoInnerStart forkedVotes.tail := by
    simp [NoInnerStart, forkedVotes, prevoteKeys, branchKeys]
  exact ⟨hno, (run_order_independent_iff 1000 670 forkedBlocks _
    fun v hv => forkedVotes_inTree v (List.mem_of_mem_tail hv)).2 hno⟩

end RoundContext
end Catapult.Finalization
