import Catapult.Finalization.VoterWeight

/-!
# Agreement inside one round

Whatever messages an aggregator is given, two candidates that both reach a threshold of more than half the weight
share a precommit, so they lie on one chain of the hash tree (`agreement`).

The threshold itself is a 64-bit product divided by the configured size. It is the intended share of the weight if and
only if the product does not wrap; then nothing is finalized by a smaller share of the voters.
-/

namespace Catapult.Finalization
open Vote

namespace RoundContext
variable {ctx : RoundContext} {point : HeightHashPair}

theorem treeOf_graded (votes : List Vote) : (treeOf votes).Graded := by
  induction votes using List.reverseRecOn with
  | nil => intro key node hn; simp [treeOf] at hn
  | append_singleton votes v ih =>
    cases v with
    | prevote height hashes hcount w => rw [treeOf_concat_prevote]; exact ih.addBranch height hashes
    | precommit height hash w => rwa [treeOf_concat_precommit]

theorem tryFindBestPrevote_spec (h : ctx.tryFindBestPrevote = some point) :
    ∃ weights, ctx.candidates.find? point = some weights ∧ ctx.threshold ≤ weights.prevote := by
  obtain ⟨e, he, rfl⟩ := Option.map_eq_some_iff.1 h
  obtain ⟨hfind, hp⟩ := SortedMap.findLast?_eq_some he
  exact ⟨e.2, hfind, by simpa using hp⟩

theorem tryFindBestPrecommit_spec (h : ctx.tryFindBestPrecommit = some point) :
    ∃ weights, ctx.candidates.find? point = some weights ∧
      ctx.threshold ≤ weights.prevote ∧ ctx.threshold ≤ weights.precommit := by
  obtain ⟨e, he, rfl⟩ := Option.map_eq_some_iff.1 h
  obtain ⟨hfind, hp⟩ := SortedMap.findLast?_eq_some he
  exact ⟨e.2, hfind, by simpa using hp⟩

theorem find?_of_precommit_pos (h : 0 < (ctx.weights point).precommit) :
    ctx.candidates.find? point = some (ctx.weights point) := by
  unfold weights at h ⊢
  cases hfind : ctx.candidates.find? point with
  | none => rw [hfind] at h; exact absurd h (by decide)
  | some w => rfl

end RoundContext

namespace RoundMessageAggregator
variable {crypto : Crypto} {context : FinalizationContext} {agg : RoundMessageAggregator}
  {A : List FinalizationMessage}

namespace Accepted

theorem threshold_eq (h : Accepted crypto context A agg) : agg.roundContext.threshold = context.weightedThreshold := by
  rw [h.roundContext_eq]; exact (RoundContext.run_totals ..).2

theorem totalWeight_eq (h : Accepted crypto context A agg) : agg.roundContext.totalWeight = context.weight := by
  rw [h.roundContext_eq]; exact (RoundContext.run_totals ..).1

theorem graded (h : Accepted crypto context A agg) : agg.roundContext.tree.Graded := by
  rw [h.tree_eq]; exact RoundContext.treeOf_graded _

theorem cumulative_le (h : Accepted crypto context A agg) (hctx : context.Bounded) :
    agg.roundContext.cumulativePrecommitWeight ≤ agg.roundContext.totalWeight := by
  have hcounts := RoundContext.counts_run context.weight context.weightedThreshold (A.map (voteIn context))
  rw [h.totalWeight_eq, UInt64.le_iff_toNat_le, h.roundContext_eq, hcounts.cumulative, h.toNat_precommitWeight hctx]
  refine h.votersWeight_le hctx (fun m hm => (List.mem_filter.1 hm).1)
    (h.precommits_nodup.sublist (List.Sublist.map _ ?_))
  rw [precommits]
  refine List.monotone_filter_right _ fun m hm => ?_
  exact (Bool.and_eq_true _ _ ▸ hm).1

theorem comparable (h : Accepted crypto context A agg) (hctx : context.Bounded)
    (hmajority : context.weight.toNat < 2 * agg.roundContext.threshold.toNat) {a b : HeightHashPair}
    (ha : agg.roundContext.threshold ≤ (agg.roundContext.weights a).precommit)
    (hb : agg.roundContext.threshold ≤ (agg.roundContext.weights b).precommit) :
    agg.roundContext.isDescendant a b = true ∨ agg.roundContext.isDescendant b a = true := by
  have hquorum : ∀ key, agg.roundContext.threshold ≤ (agg.roundContext.weights key).precommit →
      agg.roundContext.threshold.toNat ≤ weightOf (fun m => agg.roundContext.tree.isDescendant key m.precommitPoint)
        (fun m => (context.lookup m.voter).toNat) (precommits A) := by
    intro key hkey
    have hpos : 0 < (agg.roundContext.weights key).precommit := by
      rw [UInt64.le_iff_toNat_le] at hkey
      rw [UInt64.lt_iff_toNat_lt, UInt64.toNat_zero]
      omega
    have hnat := h.toNat_precommit hctx (RoundContext.find?_of_precommit_pos hpos)
    rw [UInt64.le_iff_toNat_le, hnat] at hkey
    refine hkey.trans (Nat.le_of_eq ?_)
    rw [weightOf, precommits, List.filter_filter, votersWeight, precommitsFor]
    simp only [Bool.and_comm]
  have hsum : ((precommits A).map fun m => (context.lookup m.voter).toNat).sum < 2 * agg.roundContext.threshold.toNat :=
    (h.precommits_weight_le hctx).trans_lt hmajority
  obtain ⟨m, -, hma, hmb⟩ := exists_common_of_quorums (hquorum a ha) (hquorum b hb) hsum
  exact h.closed.comparable hma hmb

end Accepted

/-- What the members of a round can rely on when its aggregator has accepted the messages `A`. -/
structure Agreement (context : FinalizationContext) (A : List FinalizationMessage)
    (agg : RoundMessageAggregator) : Prop where
  /-- The round context has counted one vote for each accepted message. -/
  counted : agg.roundContext = RoundContext.run context.weight context.weightedThreshold (A.map (voteIn context))
  one_prevote : ((prevotes A).map FinalizationMessage.voter).Nodup
  one_precommit : ((precommits A).map FinalizationMessage.voter).Nodup
  prevotes_le : votersWeight context (prevotes A) ≤ context.weight.toNat
  precommits_le : votersWeight context (precommits A) ≤ context.weight.toNat
  cumulative_le : agg.roundContext.cumulativePrecommitWeight ≤ agg.roundContext.totalWeight
  comparable : context.weight.toNat < 2 * agg.roundContext.threshold.toNat → ∀ a b,
    agg.roundContext.threshold ≤ (agg.roundContext.weights a).precommit →
    agg.roundContext.threshold ≤ (agg.roundContext.weights b).precommit →
    agg.roundContext.isDescendant a b = true ∨ agg.roundContext.isDescendant b a = true
  /-- The size of the tree is a `size_t`. -/
  same_height : context.weight.toNat < 2 * agg.roundContext.threshold.toNat → agg.roundContext.tree.size < 2 ^ 64 →
    ∀ a b, agg.roundContext.threshold ≤ (agg.roundContext.weights a).precommit →
    agg.roundContext.threshold ≤ (agg.roundContext.weights b).precommit → a.height = b.height → a = b

/-- Agreement after every sequence of `add` calls on a new aggregator. -/
theorem agreement (crypto : Crypto) (epoch : UInt32) (height : UInt64) (config : FinalizationConfiguration)
    (accounts : HighValueAccounts) (messages : List FinalizationMessage) :
    Agreement (FinalizationContext.create epoch height config accounts)
      (acceptedMessages crypto (create (FinalizationContext.create epoch height config accounts)) messages)
      ((create (FinalizationContext.create epoch height config accounts)).addAll crypto messages) := by
  have h := accepted_addAll crypto (FinalizationContext.create epoch height config accounts) messages
  have hctx : (FinalizationContext.create epoch height config accounts).Bounded :=
    FinalizationContext.sum_accounts_le epoch height config accounts
  refine ⟨h.roundContext_eq, h.prevotes_nodup, h.precommits_nodup, h.prevotes_weight_le hctx,
    h.precommits_weight_le hctx, h.cumulative_le hctx, fun hmajority a b => h.comparable hctx hmajority, ?_⟩
  intro hmajority hsize a b ha hb hheight
  rcases h.comparable hctx hmajority ha hb with hab | hba
  · exact h.graded.eq_of_isDescendant h.closed hsize hab hheight
  · exact (h.graded.eq_of_isDescendant h.closed hsize hba hheight.symm).symm

/-- The senders of `messages` are distinct voters of weight at least `quorum`. -/
structure BackedBy (context : FinalizationContext) (messages : List FinalizationMessage) (quorum : Nat) : Prop where
  distinct : (messages.map FinalizationMessage.voter).Nodup
  quorum_le : quorum ≤ votersWeight context messages

namespace Accepted

theorem prevotesFor_nodup (h : Accepted crypto context A agg) (key : HeightHashPair) :
    ((prevotesFor A key).map FinalizationMessage.voter).Nodup := by
  refine h.prevotes_nodup.sublist (List.Sublist.map _ ?_)
  exact List.monotone_filter_right _ fun m hm => (Bool.and_eq_true _ _ ▸ hm).1

theorem precommitsFor_nodup (h : Accepted crypto context A agg) (key : HeightHashPair) :
    ((precommitsFor agg.roundContext.tree A key).map FinalizationMessage.voter).Nodup := by
  refine h.precommits_nodup.sublist (List.Sublist.map _ ?_)
  exact List.monotone_filter_right _ fun m hm => (Bool.and_eq_true _ _ ▸ hm).1

theorem backed_of_bestPrevote (h : Accepted crypto context A agg) (hctx : context.Bounded) {point : HeightHashPair}
    (hpoint : agg.roundContext.tryFindBestPrevote = some point) :
    BackedBy context (prevotesFor A point) context.weightedThreshold.toNat := by
  obtain ⟨weights, hfind, hprevote⟩ := RoundContext.tryFindBestPrevote_spec hpoint
  refine ⟨h.prevotesFor_nodup point, ?_⟩
  rw [← h.toNat_prevote hctx hfind, ← h.threshold_eq]
  exact UInt64.le_iff_toNat_le.1 hprevote

theorem backed_of_bestPrecommit (h : Accepted crypto context A agg) (hctx : context.Bounded) {point : HeightHashPair}
    (hpoint : agg.roundContext.tryFindBestPrecommit = some point) :
    BackedBy context (prevotesFor A point) context.weightedThreshold.toNat ∧
      BackedBy context (precommitsFor agg.roundContext.tree A point) context.weightedThreshold.toNat := by
  obtain ⟨weights, hfind, hprevote, hprecommit⟩ := RoundContext.tryFindBestPrecommit_spec hpoint
  refine ⟨⟨h.prevotesFor_nodup point, ?_⟩, ⟨h.precommitsFor_nodup point, ?_⟩⟩
  · rw [← h.toNat_prevote hctx hfind, ← h.threshold_eq]
    exact UInt64.le_iff_toNat_le.1 hprevote
  · rw [← h.toNat_precommit hctx hfind, ← h.threshold_eq]
    exact UInt64.le_iff_toNat_le.1 hprecommit

end Accepted
end RoundMessageAggregator

namespace FinalizationContext

def fairShare (context : FinalizationContext) : Nat :=
  context.weight.toNat * context.config.threshold.toNat / context.config.size.toNat

theorem toNat_weightedThreshold (context : FinalizationContext) : context.weightedThreshold.toNat =
    context.weight.toNat * context.config.threshold.toNat % 2 ^ 64 / context.config.size.toNat := by
  rw [weightedThreshold, UInt64.toNat_div, UInt64.toNat_mul]

theorem fairShare_le_iff (context : FinalizationContext) (hsize : 0 < context.config.size) :
    context.fairShare ≤ context.weightedThreshold.toNat ↔
      context.weight.toNat * context.config.threshold.toNat < 2 ^ 64 := by
  rw [fairShare, toNat_weightedThreshold]
  generalize context.weight.toNat * context.config.threshold.toNat = product
  have hpos : 0 < context.config.size.toNat := by simpa [UInt64.lt_iff_toNat_lt] using hsize
  have hlt := context.config.size.toNat_lt
  constructor
  · intro hle
    by_contra hwrap
    have hsplit : product % 2 ^ 64 + context.config.size.toNat ≤ product := by
      have := Nat.mod_add_div product (2 ^ 64)
      have : 0 < product / 2 ^ 64 := Nat.div_pos (by omega) (by omega)
      have : 2 ^ 64 * 1 ≤ 2 ^ 64 * (product / 2 ^ 64) := Nat.mul_le_mul_left _ this
      omega
    have hdiv := Nat.div_le_div_right (c := context.config.size.toNat) hsplit
    rw [Nat.add_div_right _ hpos] at hdiv
    omega
  · intro h
    rw [Nat.mod_eq_of_lt h]

end FinalizationContext

namespace RoundMessageAggregator

/-- After adding `messages` to a new aggregator, the best precommit and the best prevote are backed by
the share of the voters that the settings ask for. -/
structure NoMinority (crypto : Crypto) (context : FinalizationContext)
    (messages : List FinalizationMessage) : Prop where
  precommit : ∀ point, ((create context).addAll crypto messages).roundContext.tryFindBestPrecommit = some point →
    BackedBy context (precommitsFor ((create context).addAll crypto messages).roundContext.tree
      (acceptedMessages crypto (create context) messages) point) context.fairShare
  prevote : ∀ point, ((create context).addAll crypto messages).roundContext.tryFindBestPrevote = some point →
    BackedBy context (prevotesFor (acceptedMessages crypto (create context) messages) point) context.fairShare

theorem noMinority_of_fairShare_le (crypto : Crypto) {context : FinalizationContext} (hctx : context.Bounded)
    (hle : context.fairShare ≤ context.weightedThreshold.toNat) (messages : List FinalizationMessage) :
    NoMinority crypto context messages := by
  have h := accepted_addAll crypto context messages
  constructor
  · intro point hpoint
    have hback := (h.backed_of_bestPrecommit hctx hpoint).2
    exact ⟨hback.distinct, hle.trans hback.quorum_le⟩
  · intro point hpoint
    have hback := h.backed_of_bestPrevote hctx hpoint
    exact ⟨hback.distinct, hle.trans hback.quorum_le⟩

/-- The threshold of a round does not wrap to a smaller value, and no minority finalizes in any of its
runs, if and only if the product of the weight and the configured threshold fits in 64 bits. -/
theorem no_minority_iff (epoch : UInt32) (height : UInt64) (config : FinalizationConfiguration)
    (accounts : HighValueAccounts) (hsize : 0 < config.size) :
    ((FinalizationContext.create epoch height config accounts).fairShare ≤
        (create (FinalizationContext.create epoch height config accounts)).roundContext.threshold.toNat ∧
      ∀ crypto messages, NoMinority crypto (FinalizationContext.create epoch height config accounts) messages) ↔
    (FinalizationContext.create epoch height config accounts).weight.toNat * config.threshold.toNat < 2 ^ 64 := by
  have hctx : (FinalizationContext.create epoch height config accounts).Bounded :=
    FinalizationContext.sum_accounts_le epoch height config accounts
  have hconfig := (FinalizationContext.create_fields epoch height config accounts).1
  have hiff := (FinalizationContext.create epoch height config accounts).fairShare_le_iff (by rw [hconfig]; exact hsize)
  rw [hconfig] at hiff
  rw [← hiff]
  constructor
  · exact fun h => h.1
  · exact fun hle => ⟨hle, fun crypto messages => noMinority_of_fairShare_le crypto hctx hle messages⟩

def defaultConfig : FinalizationConfiguration where
  size := 10000
  threshold := 6700
  messageSynchronizationMaxResponseSize := 20 * 1024 * 1024
  maxHashesPerPoint := 256
  votingSetGrouping := 78
  treasuryReissuanceEpoch := 0
  treasuryReissuanceEpochIneligibleVoterAddresses := []

def twoVoters (balance₁ balance₂ : UInt64) (h : balance₁.toNat + balance₂.toNat < 2 ^ 64) : HighValueAccounts where
  accountHistories := [(1, ⟨fun _ => balance₁, fun _ => [⟨1, 1, 100⟩]⟩),
    (2, ⟨fun _ => balance₂, fun _ => [⟨2, 1, 100⟩]⟩)]
  addresses_nodup := by simp
  supply_lt _ := by simpa using h

def sampleCrypto : Crypto where
  verify signature _ data := decide (signature.bottom.signature ≠ 0 ∧ data.stepIdentifier.round = ⟨2, 1⟩)
  calculateMessageHash message := BitVec.ofNat 256 message.stepIdentifier.pointStage.toNat

theorem oneHash_lt : ([7] : List Hash256).length < 2 ^ 32 := by decide

theorem balances_lt : (7000 : UInt64).toNat + (3000 : UInt64).toNat < 2 ^ 64 := by decide

/-- A message of point 1 of epoch 2 about the hash 7 at height 10, signed with the voting key `key`. -/
def sampleMessage (key : VotingKey) (stage : UInt32) : FinalizationMessage where
  reserved1 := 0
  signature := ⟨⟨key, 1⟩, ⟨1, 1⟩⟩
  version := 1
  stepIdentifier := .make 2 1 stage
  height := 10
  hashes := [7]
  hashesCount_lt := oneHash_lt

theorem no_minority_small : (10000 : Nat) * 6700 < 2 ^ 64 ∧ ∀ crypto messages,
    NoMinority crypto (FinalizationContext.create 2 1 defaultConfig (twoVoters 3000 7000 (by decide))) messages :=
  ⟨by decide, ((no_minority_iff 2 1 defaultConfig (twoVoters 3000 7000 (by decide)) (by decide)).2
    (by decide +kernel)).2⟩

/-- A voter with 1/18 of the largest admissible weight finalizes a point alone. -/
theorem minority_finalizes : ¬ ∀ (crypto : Crypto) (epoch : UInt32) (height : UInt64)
    (config : FinalizationConfiguration) (accounts : HighValueAccounts) (messages : List FinalizationMessage),
    0 < config.threshold → config.threshold ≤ config.size →
    (FinalizationContext.create epoch height config accounts).weight ≤ 9000000000000000 →
    NoMinority crypto (FinalizationContext.create epoch height config accounts) messages := by
  intro h
  have hpoint := (h sampleCrypto 2 1 defaultConfig (twoVoters 500000000000000 8500000000000000 (by decide))
    [sampleMessage 1 0, sampleMessage 1 1] (by decide) (by decide) (by decide +kernel)).precommit ⟨10, 7⟩
      (by decide +kernel)
  exact absurd hpoint.quorum_le (by decide +kernel)

end RoundMessageAggregator
end Catapult.Finalization
