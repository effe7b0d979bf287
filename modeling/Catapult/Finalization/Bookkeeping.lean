import Catapult.Finalization.VoteOrder

/-!
# The weights of a round context as sums over its votes

The loops that add a precommit to all ancestors of its key dereference `m_candidates.find(ancestorKey)` without
looking at the end. `run?` is the same run with these lookups checked: no lookup ever fails, because the candidates
are the nodes of the tree and the tree is closed under parents.

A prevote is counted for the keys of its own branch only. The tree, however, keeps the parent that the first prevote
gave a key.
-/

namespace Catapult.Finalization
open Vote

theorem Steps.parent_mem {parent : HeightHashPair → Option HeightHashPair} {prev : Option HeightHashPair}
    {keys : List HeightHashPair} (h : Steps parent prev keys) {key p : HeightHashPair} (hkey : key ∈ keys)
    (hp : parent key = some p) : prev = some p ∨ p ∈ keys := by
  induction keys generalizing prev with
  | nil => simp at hkey
  | cons k keys ih =>
    rcases List.mem_cons.1 hkey with rfl | hkey
    · exact .inl (h.1.symm.trans hp)
    · rcases ih h.2 hkey with hk | hmem
      · exact .inr (List.mem_cons.2 (.inl (Option.some.inj hk).symm))
      · exact .inr (List.mem_cons_of_mem _ hmem)

theorem TreeNode.Follows.mem_of_steps {parent : HeightHashPair → Option HeightHashPair} {node m : TreeNode}
    (h : node.Follows parent) {keys : List HeightHashPair} (hsteps : Steps parent none keys)
    (hkey : node.key ∈ keys) (hm : m ∈ node.chain) : m.key ∈ keys := by
  induction node with
  | root key =>
    rw [chain, List.mem_singleton] at hm
    rw [hm]; exact hkey
  | child key p ih =>
    rcases List.mem_cons.1 hm with rfl | hm
    · exact hkey
    · refine ih h.2 ?_ hm
      rcases hsteps.parent_mem hkey h.1 with hnone | hmem
      · cases hnone
      · exact hmem

namespace RoundContext
variable {tree : FinalizationHashTree} {active : HeightHashPair → Bool} {prevote : HeightHashPair → UInt64}
  {votes : List Vote} {ctx : RoundContext}

/-- `m_candidates.find(ancestorKey)->second.Precommit += weight` for all the keys; `none` when a key is
not a candidate. -/
def addPrecommit? (candidates : SortedMap HeightHashPair Weights) (ancestorKeys : List HeightHashPair)
    (weight : UInt64) : Option (SortedMap HeightHashPair Weights) :=
  ancestorKeys.foldlM (fun c key =>
    if (c.find? key).isSome then some (c.modify key fun w => { w with precommit := w.precommit + weight }) else none)
    candidates

def acceptPrevoteKey? (weight : UInt64) (ctx : RoundContext) (key : HeightHashPair) : Option RoundContext :=
  let candidates := (ctx.candidates.emplace key {}).modify key fun w => { w with prevote := w.prevote + weight }
  match ctx.pendingPrecommitWeights.lookup key with
  | none => some { ctx with candidates := candidates }
  | some pendingWeight =>
    (addPrecommit? candidates (ctx.tree.findAncestors key) pendingWeight).map fun candidates =>
      { ctx with
        candidates := candidates
        cumulativePrecommitWeight := ctx.cumulativePrecommitWeight + pendingWeight
        pendingPrecommitWeights := ctx.pendingPrecommitWeights.erase key }

def accept? (ctx : RoundContext) : Vote → Option RoundContext
  | .prevote height hashes _ weight =>
    (branchKeys height hashes).foldlM (acceptPrevoteKey? weight) { ctx with tree := ctx.tree.addBranch height hashes }
  | .precommit height hash weight =>
    let ancestorKeys := ctx.tree.findAncestors ⟨height, hash⟩
    if ancestorKeys.isEmpty then some (ctx.acceptPrecommit height hash weight)
    else (addPrecommit? ctx.candidates ancestorKeys weight).map fun candidates =>
      { ctx with
        candidates := candidates
        cumulativePrecommitWeight := ctx.cumulativePrecommitWeight + weight }

def run? (weight threshold : UInt64) (votes : List Vote) : Option RoundContext :=
  votes.foldlM accept? { totalWeight := weight, threshold := threshold }

theorem addPrecommit?_eq {candidates : SortedMap HeightHashPair Weights} {keys : List HeightHashPair}
    (h : ∀ key ∈ keys, (candidates.find? key).isSome) (weight : UInt64) :
    addPrecommit? candidates keys weight = some (addPrecommit candidates keys weight) := by
  induction keys generalizing candidates with
  | nil => rfl
  | cons key keys ih =>
    have hkey := h key (List.mem_cons_self ..)
    rw [addPrecommit?, List.foldlM_cons, if_pos hkey]
    refine ih fun k hk => ?_
    rw [SortedMap.find?_modify]
    split
    · rw [Option.isSome_map]; exact hkey
    · exact h k (List.mem_cons_of_mem _ hk)

namespace Counts

theorem isSome_candidate (h : Counts tree active prevote votes ctx) (key : HeightHashPair) :
    (ctx.candidates.find? key).isSome = active key := by
  rw [h.find_candidate]
  cases active key <;> rfl

theorem visit? (h : Counts tree active prevote votes ctx) {key : HeightHashPair} (w : UInt64)
    (hanc : ∀ a, tree.isDescendant a key → a = key ∨ active a) :
    acceptPrevoteKey? w ctx key = some (acceptPrevoteKey w ctx key) := by
  unfold acceptPrevoteKey? acceptPrevoteKey
  cases ctx.pendingPrecommitWeights.lookup key with
  | none => rfl
  | some pendingWeight =>
    dsimp only
    rw [addPrecommit?_eq]
    · rfl
    · intro a ha
      rw [h.tree_eq, FinalizationHashTree.mem_findAncestors_iff] at ha
      rw [SortedMap.find?_modify, SortedMap.find?_emplace, SortedMap.find?_emplace]
      by_cases hak : a = key
      · simp [hak]
      · rw [if_neg hak, if_neg hak, h.isSome_candidate]
        exact (hanc a ha).resolve_left hak

theorem visitAll? {keys : List HeightHashPair} (w : UInt64) (h : Counts tree active prevote votes ctx)
    (hanc : ∀ pre key post, keys = pre ++ key :: post →
      ∀ a, tree.isDescendant a key → a = key ∨ active a ∨ a ∈ pre) :
    keys.foldlM (acceptPrevoteKey? w) ctx = some (keys.foldl (acceptPrevoteKey w) ctx) := by
  induction keys generalizing active prevote ctx with
  | nil => rfl
  | cons key keys ih =>
    have hanc' : ∀ a, tree.isDescendant a key → a = key ∨ active a := fun a ha => by
      simpa using hanc [] key keys rfl a ha
    rw [List.foldlM_cons, h.visit? w hanc']
    refine ih (h.visit w hanc') fun pre k post heq a ha => ?_
    rcases hanc (key :: pre) k post (by rw [heq]; rfl) a ha with rfl | hact | hmem
    · exact .inl rfl
    · exact .inr (.inl (by simp [hact]))
    · rcases List.mem_cons.1 hmem with rfl | hmem
      · exact .inr (.inl (by simp))
      · exact .inr (.inr hmem)

theorem accept? (h : Counts tree tree.contains prevote votes ctx) (v : Vote) :
    ctx.accept? v = some (ctx.accept v) := by
  cases v with
  | prevote height hashes hcount w =>
    exact (h.addBranch height hashes).visitAll? w fun _ _ _ heq _ ha => ancestor_addBranch h.closed heq ha
  | precommit height hash w =>
    unfold RoundContext.accept? accept
    dsimp only
    split
    · rfl
    · rename_i hne
      rw [addPrecommit?_eq]
      · unfold RoundContext.acceptPrecommit
        dsimp only
        rw [if_neg hne]
        rfl
      · intro a ha
        rw [h.tree_eq, FinalizationHashTree.mem_findAncestors_iff] at ha
        rw [h.isSome_candidate]
        exact h.closed.contains_ancestor ha

end Counts

theorem run?_eq (weight threshold : UInt64) (votes : List Vote) :
    run? weight threshold votes = some (run weight threshold votes) := by
  induction votes using List.reverseRecOn with
  | nil => rfl
  | append_singleton votes v ih =>
    have hrun : run weight threshold (votes ++ [v]) = (run weight threshold votes).accept v := by simp [run]
    rw [run?, List.foldlM_append]
    rw [run?] at ih
    rw [ih, hrun, ← (counts_run weight threshold votes).accept? v]
    show ((run weight threshold votes).accept? v >>= pure) = _
    rw [bind_pure]

theorem mem_prevoteKeys_of_isDescendant (hshared : SharedParents votes) {v : Vote} (hv : v ∈ votes)
    {c key : HeightHashPair} (hkey : key ∈ v.prevoteKeys) (hdesc : (treeOf votes).isDescendant c key) :
    c ∈ v.prevoteKeys := by
  obtain ⟨parent, hparent⟩ := hshared
  obtain ⟨node, hn, m, hm, rfl⟩ := FinalizationHashTree.isDescendant_iff.1 hdesc
  refine (treeOf_follows hparent hn).mem_of_steps (hparent v hv) ?_ hm
  rw [FinalizationHashTree.key_of_tryFindNode hn]
  exact hkey

/-- The weight of the prevotes whose branch contains `c` or, as the tree says, a descendant of `c`. -/
def prevoteWeightBelow (tree : FinalizationHashTree) (votes : List Vote) (c : HeightHashPair) : UInt64 :=
  weightOf (fun v => v.prevoteKeys.any (tree.isDescendant c)) Vote.weight votes

theorem prevoteWeight_eq_of_sharedParents (hshared : SharedParents votes) (c : HeightHashPair) :
    prevoteWeight votes c = prevoteWeightBelow (treeOf votes) votes c := by
  unfold prevoteWeight prevoteWeightBelow weightOf
  congr 2
  refine List.filter_congr fun v hv => ?_
  rw [Bool.eq_iff_iff, decide_eq_true_iff, List.any_eq_true]
  constructor
  · intro hc
    refine ⟨c, hc, ?_⟩
    rw [FinalizationHashTree.isDescendant_self, contains_treeOf]
    exact ⟨v, hv, hc⟩
  · rintro ⟨key, hkey, hdesc⟩
    exact mem_prevoteKeys_of_isDescendant hshared hv hkey hdesc

structure Bookkeeping (votes : List Vote) (ctx : RoundContext) : Prop where
  candidates : ∀ c, (ctx.candidates.find? c).isSome = ctx.tree.contains c
  prevote : ∀ c, (ctx.weights c).prevote = prevoteWeight votes c
  prevote_below : SharedParents votes → ∀ c, (ctx.weights c).prevote = prevoteWeightBelow ctx.tree votes c
  precommit : ∀ c, (ctx.weights c).precommit =
    precommitWeight votes fun k => ctx.tree.contains k && ctx.tree.isDescendant c k
  cumulative : ctx.cumulativePrecommitWeight = precommitWeight votes ctx.tree.contains
  pending : ∀ k, (ctx.pendingPrecommitWeights.lookup k).getD 0 =
    if ctx.tree.contains k then 0 else precommitWeight votes (· == k)

theorem Counts.bookkeeping (h : Counts (treeOf votes) (treeOf votes).contains (prevoteWeight votes) votes ctx) :
    Bookkeeping votes ctx := by
  have hprevote : ∀ c, (ctx.weights c).prevote = prevoteWeight votes c := by
    intro c
    unfold weights
    rw [h.find_candidate]
    cases hc : (treeOf votes).contains c with
    | true => rfl
    | false => exact (h.prevote_inactive c hc).symm
  refine ⟨fun c => ?_, hprevote, fun hshared c => ?_, fun c => ?_, ?_, fun k => ?_⟩
  · rw [h.isSome_candidate, h.tree_eq]
  · rw [hprevote, h.tree_eq, prevoteWeight_eq_of_sharedParents hshared]
  · unfold weights
    rw [h.find_candidate, h.tree_eq]
    cases hc : (treeOf votes).contains c with
    | true => rfl
    | false => exact (h.precommit_inactive hc).symm
  · rw [h.cumulative, h.tree_eq]
  · rw [h.tree_eq]
    cases hk : (treeOf votes).contains k with
    | true => rw [h.lookup_pending, hk]; rfl
    | false => exact h.parked hk

/-- In every sequence of calls all lookups of ancestors succeed, and the weights are sums over the votes. -/
theorem run_bookkeeping (weight threshold : UInt64) (votes : List Vote) :
    ∃ ctx, run? weight threshold votes = some ctx ∧ Bookkeeping votes ctx :=
  ⟨run weight threshold votes, run?_eq weight threshold votes, (counts_run weight threshold votes).bookkeeping⟩

/-- All prevotes start at `height`. -/
def StartAt (height : UInt64) (votes : List Vote) : Prop :=
  ∀ v ∈ votes, ∀ key ∈ v.prevoteKeys.head?, key.height = height

instance (height : UInt64) (votes : List Vote) : Decidable (StartAt height votes) := by
  unfold StartAt; infer_instance

def disputedVotes : List Vote := [.prevote 7 [1, 2] twoHashes_lt 100, .prevote 7 [3, 2] (by decide) 200]

/-- The second prevote contains the hash 2, which descends from the hash 1, and is not counted for 1. -/
theorem prevoteWeightBelow_disputed : ¬ ∀ (weight threshold height : UInt64) (votes : List Vote),
    StartAt height votes → ∀ c, ((run weight threshold votes).weights c).prevote =
      prevoteWeightBelow (run weight threshold votes).tree votes c := by
  intro h
  have hsum := h 1000 670 7 disputedVotes (by decide) ⟨7, 1⟩
  revert hsum
  decide +kernel

end RoundContext
end Catapult.Finalization
