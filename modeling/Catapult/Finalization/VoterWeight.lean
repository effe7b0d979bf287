import Catapult.Finalization.Aggregator
import Catapult.Finalization.VoteOrder

/-!
# The voters behind the counted weights

The round context counts in wrapping 64-bit weights. An aggregator accepts one prevote and one precommit of a voter,
and the voters of a context never outweigh `weight()`, so the sums do not wrap: every counted weight is the unbounded
weight of the accepted messages behind it.
-/

namespace Catapult.Finalization
open Vote

namespace FinalizationContext
variable {context : FinalizationContext}

/-- The voters known to the context do not outweigh it, as in every context that is built from the
high value accounts (`sum_accounts_le`). -/
def Bounded (context : FinalizationContext) : Prop := accountsWeight context.accounts ≤ context.weight.toNat

theorem mem_keys_of_isEligibleVoter {votingPublicKey : VotingKey} (h : context.isEligibleVoter votingPublicKey = true) :
    votingPublicKey ∈ context.accounts.keys := by
  by_contra hno
  have hnone := AList.lookup_eq_none.2 fun hmem => hno (AList.mem_keys.1 hmem)
  simp [isEligibleVoter, lookup, hnone] at h

theorem accountsWeight_eq (context : FinalizationContext) :
    accountsWeight context.accounts = (context.accounts.keys.map fun key => (context.lookup key).toNat).sum := by
  rw [accountsWeight, AList.keys, List.keys, List.map_map]
  congr 1
  refine List.map_congr_left fun e he => ?_
  have hlookup : context.accounts.lookup e.1 = some e.2 := AList.mem_lookup_iff.2 he
  simp [lookup, hlookup]

end FinalizationContext

namespace RoundMessageAggregator
variable {crypto : Crypto} {context : FinalizationContext} {agg : RoundMessageAggregator}
  {message : FinalizationMessage} {A : List FinalizationMessage}

/-- The unbounded weight of the senders of `messages`. -/
def votersWeight (context : FinalizationContext) (messages : List FinalizationMessage) : Nat :=
  (messages.map fun m => (context.lookup m.voter).toNat).sum

def prevotes (messages : List FinalizationMessage) : List FinalizationMessage := messages.filter (·.isPrevote)

def precommits (messages : List FinalizationMessage) : List FinalizationMessage := messages.filter (!·.isPrevote)

/-- The prevotes whose hash chain contains `key`. -/
def prevotesFor (messages : List FinalizationMessage) (key : HeightHashPair) : List FinalizationMessage :=
  messages.filter fun m => m.isPrevote && decide (key ∈ branchKeys m.height m.hashes)

/-- The precommits for `key` or a descendant of `key` in `tree`. -/
def precommitsFor (tree : FinalizationHashTree) (messages : List FinalizationMessage) (key : HeightHashPair) :
    List FinalizationMessage :=
  messages.filter fun m => !m.isPrevote && tree.isDescendant key m.precommitPoint

@[simp] theorem voteIn_weight (context : FinalizationContext) (message : FinalizationMessage) :
    (voteIn context message).weight = context.lookup message.voter := by
  unfold voteIn FinalizationMessage.vote
  split <;> rfl

theorem mem_prevoteKeys_voteIn (context : FinalizationContext) (message : FinalizationMessage) (key : HeightHashPair) :
    decide (key ∈ (voteIn context message).prevoteKeys) =
      (message.isPrevote && decide (key ∈ branchKeys message.height message.hashes)) := by
  unfold voteIn FinalizationMessage.vote
  split
  · rename_i h; rw [h, Bool.true_and]; rfl
  · rename_i h; simp [h, prevoteKeys]

theorem isPrecommitFor_voteIn (p : HeightHashPair → Bool) (context : FinalizationContext)
    (message : FinalizationMessage) :
    isPrecommitFor p (voteIn context message) = (!message.isPrevote && p message.precommitPoint) := by
  unfold voteIn FinalizationMessage.vote
  split
  · rename_i h; simp [h, isPrecommitFor, precommitKey]
  · rename_i h; simp [h, isPrecommitFor, precommitKey, FinalizationMessage.precommitPoint]

namespace Accepted

theorem voters_nodup (h : Accepted crypto context A agg) (stage : Bool) :
    ((A.filter (·.isPrevote == stage)).map FinalizationMessage.voter).Nodup := by
  have hkeys : ((A.filter (·.isPrevote == stage)).map FinalizationMessage.messageKey).Nodup :=
    h.messageKey_nodup.sublist (List.filter_sublist.map _)
  have hmap : (A.filter (·.isPrevote == stage)).map FinalizationMessage.messageKey =
      ((A.filter (·.isPrevote == stage)).map FinalizationMessage.voter).map fun key => (key, stage) := by
    rw [List.map_map]
    refine List.map_congr_left fun m hm => ?_
    have : m.isPrevote = stage := by simpa using (List.mem_filter.1 hm).2
    simp [FinalizationMessage.messageKey, this]
  rw [hmap] at hkeys
  exact hkeys.of_map _

theorem prevotes_nodup (h : Accepted crypto context A agg) : ((prevotes A).map FinalizationMessage.voter).Nodup := by
  have := h.voters_nodup true
  simpa [prevotes] using this

theorem precommits_nodup (h : Accepted crypto context A agg) :
    ((precommits A).map FinalizationMessage.voter).Nodup := by
  have := h.voters_nodup false
  simpa [precommits] using this

theorem votersWeight_le (h : Accepted crypto context A agg) (hctx : context.Bounded)
    {messages : List FinalizationMessage}
    (hsub : ∀ m ∈ messages, m ∈ A) (hnd : (messages.map FinalizationMessage.voter).Nodup) :
    votersWeight context messages ≤ context.weight.toNat := by
  have hkeys : ∀ key ∈ messages.map FinalizationMessage.voter, key ∈ context.accounts.keys := by
    intro key hkey
    obtain ⟨m, hm, rfl⟩ := List.mem_map.1 hkey
    exact FinalizationContext.mem_keys_of_isEligibleVoter (h.valid m (hsub m hm)).authentic.eligible
  have hle := sum_map_le_of_nodup (w := fun key => (context.lookup key).toNat) hnd hkeys
  rw [List.map_map, ← context.accountsWeight_eq] at hle
  exact hle.trans hctx

theorem prevotes_weight_le (h : Accepted crypto context A agg) (hctx : context.Bounded) :
    votersWeight context (prevotes A) ≤ context.weight.toNat :=
  h.votersWeight_le hctx (fun _ hm => (List.mem_filter.1 hm).1) h.prevotes_nodup

theorem precommits_weight_le (h : Accepted crypto context A agg) (hctx : context.Bounded) :
    votersWeight context (precommits A) ≤ context.weight.toNat :=
  h.votersWeight_le hctx (fun _ hm => (List.mem_filter.1 hm).1) h.precommits_nodup

theorem tree_eq (h : Accepted crypto context A agg) :
    agg.roundContext.tree = RoundContext.treeOf (A.map (voteIn context)) := by
  rw [h.roundContext_eq, (RoundContext.counts_run ..).tree_eq]

theorem closed (h : Accepted crypto context A agg) : agg.roundContext.tree.Closed := by
  rw [h.tree_eq]; exact (RoundContext.counts_run 0 0 _).closed

theorem toNat_prevoteWeight (h : Accepted crypto context A agg) (hctx : context.Bounded) (key : HeightHashPair) :
    (prevoteWeight (A.map (voteIn context)) key).toNat = votersWeight context (prevotesFor A key) := by
  have hlt := (h.prevotes_weight_le hctx).trans_lt context.weight.toNat_lt
  have hsum : prevoteWeight (A.map (voteIn context)) key =
      weightOf (fun m => m.isPrevote && decide (key ∈ branchKeys m.height m.hashes))
        (fun m => context.lookup m.voter) (prevotes A) := by
    rw [prevotes, weightOf_filter fun m _ hm => (Bool.and_eq_true _ _ ▸ hm).1, prevoteWeight, weightOf_map]
    simp only [voteIn_weight, mem_prevoteKeys_voteIn]
  rw [hsum, toNat_weightOf hlt, prevotes, weightOf_filter fun m _ hm => (Bool.and_eq_true _ _ ▸ hm).1]
  rfl

theorem toNat_precommitWeight (h : Accepted crypto context A agg) (hctx : context.Bounded) (p : HeightHashPair → Bool) :
    (precommitWeight (A.map (voteIn context)) p).toNat =
      votersWeight context (A.filter fun m => !m.isPrevote && p m.precommitPoint) := by
  have hlt := (h.precommits_weight_le hctx).trans_lt context.weight.toNat_lt
  have hsum : precommitWeight (A.map (voteIn context)) p =
      weightOf (fun m => !m.isPrevote && p m.precommitPoint) (fun m => context.lookup m.voter) (precommits A) := by
    rw [precommits, weightOf_filter fun m _ hm => (Bool.and_eq_true _ _ ▸ hm).1, precommitWeight, weightOf_map]
    simp only [voteIn_weight, isPrecommitFor_voteIn]
  rw [hsum, toNat_weightOf hlt, precommits, weightOf_filter fun m _ hm => (Bool.and_eq_true _ _ ▸ hm).1]
  rfl

theorem weights_eq (h : Accepted crypto context A agg) {key : HeightHashPair}
    (hkey : agg.roundContext.tree.contains key = true) :
    agg.roundContext.candidates.find? key = some ⟨prevoteWeight (A.map (voteIn context)) key,
      precommitWeight (A.map (voteIn context)) (agg.roundContext.tree.isDescendant key)⟩ := by
  have hcounts := RoundContext.counts_run context.weight context.weightedThreshold (A.map (voteIn context))
  rw [h.tree_eq] at hkey ⊢
  rw [h.roundContext_eq, hcounts.find_candidate, if_pos hkey]
  congr 3
  funext k
  cases hd : (RoundContext.treeOf (A.map (voteIn context))).isDescendant key k
  · simp
  · simp [FinalizationHashTree.contains_of_isDescendant hd]

theorem weights_of_not_contains (h : Accepted crypto context A agg) {key : HeightHashPair}
    (hkey : agg.roundContext.tree.contains key = false) : agg.roundContext.candidates.find? key = none := by
  have hcounts := RoundContext.counts_run context.weight context.weightedThreshold (A.map (voteIn context))
  rw [h.tree_eq] at hkey
  rw [h.roundContext_eq, hcounts.find_candidate, hkey]
  rfl

theorem toNat_prevote (h : Accepted crypto context A agg) (hctx : context.Bounded) {key : HeightHashPair}
    {weights : Weights} (hw : agg.roundContext.candidates.find? key = some weights) :
    weights.prevote.toNat = votersWeight context (prevotesFor A key) := by
  cases hkey : agg.roundContext.tree.contains key with
  | false => rw [h.weights_of_not_contains hkey] at hw; cases hw
  | true =>
    rw [h.weights_eq hkey] at hw
    rw [← Option.some.inj hw]
    exact h.toNat_prevoteWeight hctx key

theorem toNat_precommit (h : Accepted crypto context A agg) (hctx : context.Bounded) {key : HeightHashPair}
    {weights : Weights} (hw : agg.roundContext.candidates.find? key = some weights) :
    weights.precommit.toNat = votersWeight context (precommitsFor agg.roundContext.tree A key) := by
  cases hkey : agg.roundContext.tree.contains key with
  | false => rw [h.weights_of_not_contains hkey] at hw; cases hw
  | true =>
    rw [h.weights_eq hkey] at hw
    rw [← Option.some.inj hw]
    exact h.toNat_precommitWeight hctx _

end Accepted
end RoundMessageAggregator
end Catapult.Finalization
