import Catapult.Finalization.Proof
import Mathlib.Algebra.Order.BigOperators.Group.Finset

/-!
# Proofs that contradict each other

Two accepted proofs of one round may come from different nodes, with different messages and different trees. When
their points have no common descendant, the voters in both quorums have signed two different precommits with the one
key of the step, and they have at least twice the threshold less the total weight.
-/

namespace Catapult.Finalization
open RoundMessageAggregator

namespace FinalizationProof
variable {crypto : Crypto} {context : FinalizationContext} {proof proof' : FinalizationProof} {voter : VotingKey}

/-- The tree that the verifier builds from the prevotes. -/
def tree (context : FinalizationContext) (proof : FinalizationProof) : FinalizationHashTree :=
  RoundContext.treeOf (proof.messages.map (voteIn context))

/-- The precommits that back the point of a proof. -/
def backing (context : FinalizationContext) (proof : FinalizationProof) : List FinalizationMessage :=
  precommitsFor (proof.tree context) proof.messages proof.point

def backers (context : FinalizationContext) (proof : FinalizationProof) : Finset VotingKey :=
  ((proof.backing context).map FinalizationMessage.voter).toFinset

/-- Two correctly signed precommits of a voter for one step and for different points. -/
structure Equivocation (crypto : Crypto) (context : FinalizationContext) (voter : VotingKey)
    (message message' : FinalizationMessage) : Prop where
  voter_eq : message.voter = voter ∧ message'.voter = voter
  precommits : message.isPrevote = false ∧ message'.isPrevote = false
  sameStep : message.stepIdentifier = message'.stepIdentifier
  authentic : Authentic crypto context message ∧ Authentic crypto context message'
  points_ne : message.precommitPoint ≠ message'.precommitPoint

theorem mem_backers : voter ∈ proof.backers context ↔ ∃ message ∈ proof.messages, message.voter = voter ∧
    message.isPrevote = false ∧ (proof.tree context).isDescendant proof.point message.precommitPoint = true := by
  simp only [backers, backing, List.mem_toFinset, List.mem_map, precommitsFor, List.mem_filter, Bool.and_eq_true,
    Bool.not_eq_true']
  constructor
  · rintro ⟨m, ⟨hm, hprecommit, hpoint⟩, hvoter⟩
    exact ⟨m, hm, hvoter, hprecommit, hpoint⟩
  · rintro ⟨m, hm, hvoter, hprecommit, hpoint⟩
    exact ⟨m, ⟨hm, hprecommit, hpoint⟩, hvoter⟩

theorem pointStage_of_precommit {message : FinalizationMessage} (hmem : message ∈ proof.messages)
    (hprecommit : message.isPrevote = false) :
    message.stepIdentifier = .make proof.round.epoch proof.round.point 1 := by
  obtain ⟨stage, hstep⟩ := stepIdentifier_of_mem_messages hmem
  rw [FinalizationMessage.isPrevote, hstep] at hprecommit
  have hodd : stage.toNat % 2 = 1 := by
    by_contra heven
    have hzero : (StepIdentifier.make proof.round.epoch proof.round.point stage).pointStage &&& 1 = 0 := by
      rw [← UInt32.toNat_inj, UInt32.toNat_and, StepIdentifier.toNat_pointStage_make]
      simp
      omega
    rw [StepIdentifier.stage, if_pos hzero] at hprecommit
    exact absurd hprecommit (by decide)
  have hsame : (StepIdentifier.make proof.round.epoch proof.round.point stage).pointStage =
      (StepIdentifier.make proof.round.epoch proof.round.point 1).pointStage := by
    rw [← UInt32.toNat_inj, StepIdentifier.toNat_pointStage_make, StepIdentifier.toNat_pointStage_make, hodd]
    rfl
  rw [hstep]
  exact congrArg (StepIdentifier.mk _) hsame

theorem authentic_of_success (h : verifyFinalizationProof crypto proof context = some .success)
    {message : FinalizationMessage} (hmem : message ∈ proof.messages) : Authentic crypto context message := by
  obtain ⟨-, -, haccepted, -⟩ := verifyFinalizationProof_success_iff.1 h
  have hacc := accepted_addAll crypto context proof.messages
  rw [haccepted] at hacc
  exact (hacc.valid message hmem).authentic

theorem threshold_le_backers (hctx : context.Bounded)
    (h : verifyFinalizationProof crypto proof context = some .success) :
    context.weightedThreshold.toNat ≤ ∑ voter ∈ proof.backers context, (context.lookup voter).toNat := by
  obtain ⟨-, -, haccepted, hpoint⟩ := verifyFinalizationProof_success_iff.1 h
  have hacc := accepted_addAll crypto context proof.messages
  rw [haccepted] at hacc
  have hbacked := (hacc.backed_of_bestPrecommit hctx hpoint).2
  rw [hacc.tree_eq] at hbacked
  refine hbacked.quorum_le.trans (Nat.le_of_eq ?_)
  rw [backers, backing, tree, List.sum_toFinset _ hbacked.distinct, List.map_map]
  rfl

theorem sum_voters_le (hctx : context.Bounded) {voters : Finset VotingKey}
    (h : ∀ voter ∈ voters, context.isEligibleVoter voter = true) :
    ∑ voter ∈ voters, (context.lookup voter).toNat ≤ context.weight.toNat := by
  rw [FinalizationContext.Bounded, context.accountsWeight_eq, ← List.sum_toFinset _ context.accounts.keys_nodup] at hctx
  refine (Finset.sum_le_sum_of_subset fun voter hvoter => ?_).trans hctx
  exact List.mem_toFinset.2 (FinalizationContext.mem_keys_of_isEligibleVoter (h voter hvoter))

/-- The voters who have equivocated have at least twice the threshold less the total weight of the context. -/
theorem conflicting_proofs_equivocate (hctx : context.Bounded)
    (h : verifyFinalizationProof crypto proof context = some .success)
    (h' : verifyFinalizationProof crypto proof' context = some .success) (hround : proof.round = proof'.round)
    (hconflict : ∀ key, ¬((proof.tree context).isDescendant proof.point key = true ∧
      (proof'.tree context).isDescendant proof'.point key = true)) :
    ∃ voters : Finset VotingKey,
      (∀ voter ∈ voters, ∃ message ∈ proof.messages, ∃ message' ∈ proof'.messages,
        Equivocation crypto context voter message message') ∧
      2 * context.weightedThreshold.toNat ≤
        context.weight.toNat + ∑ voter ∈ voters, (context.lookup voter).toNat := by
  refine ⟨proof.backers context ∩ proof'.backers context, fun voter hvoter => ?_, ?_⟩
  · rw [Finset.mem_inter, mem_backers, mem_backers] at hvoter
    obtain ⟨⟨m, hm, hvoter, hprecommit, hpoint⟩, m', hm', hvoter', hprecommit', hpoint'⟩ := hvoter
    refine ⟨m, hm, m', hm', ⟨hvoter, hvoter'⟩, ⟨hprecommit, hprecommit'⟩, ?_,
      ⟨authentic_of_success h hm, authentic_of_success h' hm'⟩, fun heq => ?_⟩
    · rw [pointStage_of_precommit hm hprecommit, pointStage_of_precommit hm' hprecommit', hround]
    · exact hconflict _ ⟨hpoint, heq ▸ hpoint'⟩
  · have hboth : ∑ voter ∈ proof.backers context ∪ proof'.backers context, (context.lookup voter).toNat +
        ∑ voter ∈ proof.backers context ∩ proof'.backers context, (context.lookup voter).toNat = _ :=
      Finset.sum_union_inter
    have hle : ∑ voter ∈ proof.backers context ∪ proof'.backers context, (context.lookup voter).toNat ≤
        context.weight.toNat := by
      refine sum_voters_le hctx fun voter hvoter => ?_
      rcases Finset.mem_union.1 hvoter with hmem | hmem
      · obtain ⟨m, hm, rfl, -⟩ := mem_backers.1 hmem
        exact (authentic_of_success h hm).eligible
      · obtain ⟨m, hm, rfl, -⟩ := mem_backers.1 hmem
        exact (authentic_of_success h' hm).eligible
    have hquorum := threshold_le_backers hctx h
    have hquorum' := threshold_le_backers hctx h'
    omega

/-- A second proof of the round, for the hash 8. -/
def otherProof : FinalizationProof where
  version := 1
  round := ⟨2, 1⟩
  height := 10
  hash := 8
  messageGroups :=
    [⟨0, 10, [8], [⟨⟨1, 1⟩, ⟨1, 1⟩⟩], oneHash_lt⟩, ⟨1, 10, [8], [⟨⟨1, 1⟩, ⟨1, 1⟩⟩], oneHash_lt⟩]

abbrev sampleContext : FinalizationContext := .create 2 1 defaultConfig (twoVoters 7000 3000 (by decide))

/-- A voter with 70 % of the weight has signed for both. -/
theorem conflicting_proofs_equivocate_sample : ∃ voters : Finset VotingKey,
    (∀ voter ∈ voters, ∃ message ∈ (sampleProof 1).messages, ∃ message' ∈ otherProof.messages,
      Equivocation sampleCrypto sampleContext voter message message') ∧
    2 * sampleContext.weightedThreshold.toNat ≤
      sampleContext.weight.toNat + ∑ voter ∈ voters, (sampleContext.lookup voter).toNat := by
  have hkeys : ∀ (proof : FinalizationProof) {key : HeightHashPair},
      (proof.tree sampleContext).isDescendant proof.point key = true →
        key ∈ (proof.messages.map (voteIn sampleContext)).flatMap Vote.prevoteKeys := fun proof key hkey =>
    List.mem_flatMap.2 ((RoundContext.contains_treeOf _ _).1 (FinalizationHashTree.contains_of_isDescendant hkey))
  refine conflicting_proofs_equivocate (FinalizationContext.sum_accounts_le ..) (by decide +kernel) (by decide +kernel)
    rfl fun key ⟨hkey, hkey'⟩ => ?_
  have hfirst := hkeys (sampleProof 1) hkey
  have hsecond := hkeys otherProof hkey'
  rw [show ((sampleProof 1).messages.map (voteIn sampleContext)).flatMap Vote.prevoteKeys = [⟨10, 7⟩] by
    decide +kernel, List.mem_singleton] at hfirst
  rw [show (otherProof.messages.map (voteIn sampleContext)).flatMap Vote.prevoteKeys = [⟨10, 8⟩] by
    decide +kernel, List.mem_singleton, hfirst] at hsecond
  exact absurd hsecond (by decide)

end FinalizationProof
end Catapult.Finalization
