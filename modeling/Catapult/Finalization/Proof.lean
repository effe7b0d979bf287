import Catapult.Finalization.Agreement

/-!
# Finalization proofs (`FinalizationProof`, `VerifyFinalizationProof`)

A proof carries the messages of a round in groups: the messages of a group differ in their signatures only. The
verifier expands the groups and replays the messages through a new aggregator, every one of which has to be accepted,
and compares the best precommit with the point that the proof names.

`StepIdentifier` keeps the lowest 31 bits of a point. What an accepted proof establishes is therefore about the
messages of its own round exactly when the point of that round has 31 bits.
-/

namespace Catapult.Finalization

namespace StepIdentifier

theorem toNat_pointStage_make (epoch point stage : UInt32) :
    (make epoch point stage).pointStage.toNat = 2 * (point.toNat % 2 ^ 31) + stage.toNat % 2 := by
  have hpoint : (point <<< 1).toNat = 2 ^ 1 * (point.toNat % 2 ^ 31) := by
    rw [UInt32.toNat_shiftLeft]
    simp [Nat.shiftLeft_eq]
    omega
  have hstage : (stage &&& 1).toNat = stage.toNat % 2 := by simp
  rw [make, UInt32.toNat_or, hpoint, hstage, ← Nat.two_pow_add_eq_or_of_lt (by omega)]

theorem round_make_iff (round : FinalizationRound) (stage : UInt32) :
    (make round.epoch round.point stage).round = round ↔ round.point < 2 ^ 31 := by
  have hpoint : ((make round.epoch round.point stage).pointStage >>> 1).toNat = round.point.toNat % 2 ^ 31 := by
    rw [UInt32.toNat_shiftRight, toNat_pointStage_make]
    simp [Nat.shiftRight_eq_div_pow]
    omega
  rw [StepIdentifier.round, UInt32.lt_iff_toNat_lt, show ((2 : UInt32) ^ 31).toNat = 2 ^ 31 from rfl]
  constructor
  · intro h
    have h' := congrArg (fun r => r.point.toNat) h
    simp only [hpoint] at h'
    omega
  · intro h
    have h' : (make round.epoch round.point stage).pointStage >>> 1 = round.point := by
      rw [← UInt32.toNat_inj, hpoint, Nat.mod_eq_of_lt h]
    rw [h']
    rfl

end StepIdentifier

/-- `FinalizationMessageGroup`: messages that differ in their signatures only. The stage is the raw field. -/
structure FinalizationMessageGroup where
  stage : UInt32
  height : UInt64
  hashes : List Hash256
  signatures : List BmTreeSignature
  /-- `HashesCount` is a 32-bit field. -/
  hashesCount_lt : hashes.length < 2 ^ 32

structure FinalizationProof where
  version : UInt32
  round : FinalizationRound
  height : UInt64
  hash : Hash256
  messageGroups : List FinalizationMessageGroup

inductive VerifyFinalizationProofResult where
  | failureInvalidVersion
  | failureInvalidEpoch
  | failureInvalidHeight
  | failureInvalidHash
  | failureNoPrecommit
  | failureInvalidMesssage
  | success
deriving DecidableEq, Repr

/-- `CreateTemplateMessage`, with the signature that the verifier sets afterwards. -/
def createTemplateMessage (round : FinalizationRound) (group : FinalizationMessageGroup) (signature : BmTreeSignature) :
    FinalizationMessage where
  reserved1 := 0
  signature := signature
  version := FinalizationMessage.currentVersion
  stepIdentifier := .make round.epoch round.point group.stage
  height := group.height
  hashes := group.hashes
  hashesCount_lt := group.hashesCount_lt

namespace FinalizationProof

def currentVersion : UInt32 := 1

def messages (proof : FinalizationProof) : List FinalizationMessage :=
  proof.messageGroups.flatMap fun group => group.signatures.map (createTemplateMessage proof.round group)

def point (proof : FinalizationProof) : HeightHashPair := ⟨proof.height, proof.hash⟩

theorem stepIdentifier_of_mem_messages {proof : FinalizationProof} {message : FinalizationMessage}
    (h : message ∈ proof.messages) :
    ∃ stage, message.stepIdentifier = .make proof.round.epoch proof.round.point stage := by
  obtain ⟨group, -, hm⟩ := List.mem_flatMap.1 h
  obtain ⟨signature, -, rfl⟩ := List.mem_map.1 hm
  exact ⟨group.stage, rfl⟩

end FinalizationProof

namespace RoundMessageAggregator
variable {crypto : Crypto} {context : FinalizationContext} {agg agg' : RoundMessageAggregator}
  {messages : List FinalizationMessage}

/-- The loop of the verifier, which stops at the first message that is not accepted: `none` when an
exception is thrown, `some none` when a message is not accepted. -/
def addWhileAccepted (crypto : Crypto) :
    RoundMessageAggregator → List FinalizationMessage → Option (Option RoundMessageAggregator)
  | agg, [] => some (some agg)
  | agg, message :: messages =>
    match agg.add crypto message with
    | (none, _) => none
    | (some result, agg) => if result.isSuccess then addWhileAccepted crypto agg messages else some none

theorem addWhileAccepted_eq_iff :
    addWhileAccepted crypto agg messages = some (some agg') ↔
      acceptedMessages crypto agg messages = messages ∧ agg.addAll crypto messages = agg' := by
  induction messages generalizing agg with
  | nil => simp [addWhileAccepted, acceptedMessages, addAll]
  | cons message messages ih =>
    rw [addWhileAccepted, acceptedMessages,
      show agg.addAll crypto (message :: messages) = (agg.add crypto message).2.addAll crypto messages from rfl]
    obtain ⟨result, next⟩ := agg.add crypto message
    cases result with
    | none =>
      simp only [Option.any_none, Bool.false_eq_true, if_false]
      exact ⟨by rintro ⟨⟩, fun h => (acceptedMessages_ne_cons _ _ _ _ h.1).elim⟩
    | some r =>
      simp only [Option.any_some]
      cases hr : r.isSuccess with
      | false =>
        simp only [Bool.false_eq_true, if_false]
        exact ⟨by rintro ⟨⟩, fun h => (acceptedMessages_ne_cons _ _ _ _ h.1).elim⟩
      | true => simp only [if_true, ih, List.cons.injEq, true_and]

end RoundMessageAggregator
open RoundMessageAggregator

/-- `VerifyFinalizationProof`; `none` when an exception is thrown. -/
def verifyFinalizationProof (crypto : Crypto) (proof : FinalizationProof) (context : FinalizationContext) :
    Option VerifyFinalizationProofResult :=
  if FinalizationProof.currentVersion ≠ proof.version then some .failureInvalidVersion
  else if proof.round.epoch ≠ context.epoch then some .failureInvalidEpoch
  else match addWhileAccepted crypto (create context) proof.messages with
  | none => none
  | some none => some .failureInvalidMesssage
  | some (some agg) =>
    match agg.roundContext.tryFindBestPrecommit with
    | none => some .failureNoPrecommit
    | some best =>
      if best.height ≠ proof.height then some .failureInvalidHeight
      else if best.hash ≠ proof.hash then some .failureInvalidHash
      else some .success

theorem verifyFinalizationProof_success_iff {crypto : Crypto} {proof : FinalizationProof}
    {context : FinalizationContext} :
    verifyFinalizationProof crypto proof context = some .success ↔
      proof.version = FinalizationProof.currentVersion ∧ proof.round.epoch = context.epoch ∧
      acceptedMessages crypto (create context) proof.messages = proof.messages ∧
      ((create context).addAll crypto proof.messages).roundContext.tryFindBestPrecommit = some proof.point := by
  unfold verifyFinalizationProof
  split_ifs with hversion hepoch
  · exact ⟨nofun, fun h => absurd h.1.symm hversion⟩
  · exact ⟨nofun, fun h => absurd h.2.1 hepoch⟩
  simp only [ne_eq, Decidable.not_not] at hversion hepoch
  simp only [hversion.symm, hepoch, true_and]
  split
  · rename_i hadd
    refine ⟨nofun, fun h => ?_⟩
    rw [addWhileAccepted_eq_iff.2 ⟨h.1, rfl⟩] at hadd; cases hadd
  · rename_i hadd
    refine ⟨nofun, fun h => ?_⟩
    rw [addWhileAccepted_eq_iff.2 ⟨h.1, rfl⟩] at hadd; cases hadd
  · rename_i agg hadd
    obtain ⟨haccepted, rfl⟩ := addWhileAccepted_eq_iff.1 hadd
    simp only [haccepted, true_and]
    split
    · rename_i hnone; simp [hnone]
    · rename_i best hbest
      rw [hbest, Option.some.injEq, FinalizationProof.point]
      obtain ⟨height, hash⟩ := best
      rw [HeightHashPair.mk.injEq]
      split_ifs with h1 h2
      · exact ⟨nofun, fun h => absurd h.1 h1⟩
      · exact ⟨nofun, fun h => absurd h.2 h2⟩
      · exact ⟨fun _ => ⟨not_not.1 h1, not_not.1 h2⟩, fun _ => rfl⟩

namespace FinalizationProof

/-- What an accepted proof is meant to establish: its messages are correctly signed messages of its round,
from eligible voters, of which none sent two of one stage; and its point is backed by prevotes and by
precommits of at least threshold weight. -/
structure Sound (crypto : Crypto) (context : FinalizationContext) (proof : FinalizationProof) : Prop where
  round : ∀ m ∈ proof.messages, m.stepIdentifier.round = proof.round
  authentic : ∀ m ∈ proof.messages, Authentic crypto context m
  distinct : (proof.messages.map FinalizationMessage.messageKey).Nodup
  prevotes : BackedBy context (prevotesFor proof.messages proof.point) context.weightedThreshold.toNat
  precommits : BackedBy context (precommitsFor (RoundContext.treeOf (proof.messages.map (voteIn context)))
    proof.messages proof.point) context.weightedThreshold.toNat

theorem exists_mem_of_bestPrecommit {crypto : Crypto} {context : FinalizationContext} {agg : RoundMessageAggregator}
    {A : List FinalizationMessage} {point : HeightHashPair} (h : Accepted crypto context A agg)
    (hpoint : agg.roundContext.tryFindBestPrecommit = some point) : ∃ m, m ∈ A := by
  obtain ⟨weights, hfind, -⟩ := RoundContext.tryFindBestPrecommit_spec hpoint
  cases hcontains : agg.roundContext.tree.contains point with
  | false => rw [h.weights_of_not_contains hcontains] at hfind; cases hfind
  | true =>
    rw [h.tree_eq] at hcontains
    obtain ⟨v, hv, -⟩ := (RoundContext.contains_treeOf _ _).1 hcontains
    obtain ⟨m, hm, -⟩ := List.mem_map.1 hv
    exact ⟨m, hm⟩

/-- An accepted proof is sound if and only if the point of its round has 31 bits. -/
theorem verifyFinalizationProof_sound_iff (crypto : Crypto) (epoch : UInt32) (height : UInt64)
    (config : FinalizationConfiguration) (accounts : HighValueAccounts) (proof : FinalizationProof)
    (h : verifyFinalizationProof crypto proof (FinalizationContext.create epoch height config accounts) =
      some .success) :
    Sound crypto (FinalizationContext.create epoch height config accounts) proof ↔ proof.round.point < 2 ^ 31 := by
  have hctx : (FinalizationContext.create epoch height config accounts).Bounded :=
    FinalizationContext.sum_accounts_le epoch height config accounts
  obtain ⟨-, -, haccepted, hpoint⟩ := verifyFinalizationProof_success_iff.1 h
  have hacc := accepted_addAll crypto (FinalizationContext.create epoch height config accounts) proof.messages
  rw [haccepted] at hacc
  constructor
  · intro hsound
    obtain ⟨m, hm⟩ := exists_mem_of_bestPrecommit hacc hpoint
    obtain ⟨stage, hstep⟩ := stepIdentifier_of_mem_messages hm
    have hround := hsound.round m hm
    rw [hstep] at hround
    exact (StepIdentifier.round_make_iff ..).1 hround
  · intro hlt
    have hbacked := hacc.backed_of_bestPrecommit hctx hpoint
    rw [hacc.tree_eq] at hbacked
    refine ⟨fun m hm => ?_, fun m hm => (hacc.valid m hm).authentic, hacc.messageKey_nodup, hbacked.1, hbacked.2⟩
    obtain ⟨stage, hstep⟩ := stepIdentifier_of_mem_messages hm
    rw [hstep]
    exact (StepIdentifier.round_make_iff ..).2 hlt

/-- A proof for point `point` of epoch 2 with a prevote and a precommit of the voting key 1. -/
def sampleProof (point : UInt32) : FinalizationProof where
  version := 1
  round := ⟨2, point⟩
  height := 10
  hash := 7
  messageGroups :=
    [⟨0, 10, [7], [⟨⟨1, 1⟩, ⟨1, 1⟩⟩], oneHash_lt⟩, ⟨1, 10, [7], [⟨⟨1, 1⟩, ⟨1, 1⟩⟩], oneHash_lt⟩]

theorem verifyFinalizationProof_sound_sample :
    Sound sampleCrypto (FinalizationContext.create 2 1 defaultConfig (twoVoters 7000 3000 (by decide)))
      (sampleProof 1) :=
  (verifyFinalizationProof_sound_iff sampleCrypto 2 1 defaultConfig (twoVoters 7000 3000 (by decide)) (sampleProof 1)
    (by decide +kernel)).2 (by decide)

/-- The messages of point 1 are accepted as a proof for point `2 ^ 31 + 1`. -/
theorem relabelled_proof_accepted : ¬ ∀ (crypto : Crypto) (epoch : UInt32) (height : UInt64)
    (config : FinalizationConfiguration) (accounts : HighValueAccounts) (proof : FinalizationProof),
    verifyFinalizationProof crypto proof (FinalizationContext.create epoch height config accounts) = some .success →
      Sound crypto (FinalizationContext.create epoch height config accounts) proof := by
  intro h
  have hsound := h sampleCrypto 2 1 defaultConfig (twoVoters 7000 3000 (by decide))
    (sampleProof (2 ^ 31 + 1)) (by decide +kernel)
  exact absurd (hsound.round _ (List.mem_cons_self ..)) (by decide)

end FinalizationProof
end Catapult.Finalization
