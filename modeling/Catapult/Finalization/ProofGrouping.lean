import Mathlib.Data.List.Lex
import Catapult.Lib.Bytes
import Catapult.Finalization.MultiRound
import Catapult.Finalization.Proof

/-!
# Building finalization proofs (`CreateFinalizationProof`)

`GroupMessages` collects the signatures of the messages of a round by the signed bytes, in a map that is ordered by
message size and then by these bytes. Grouping loses no message.

The messages of a proof come from `unknownMessages`, which stops at the size limit of a synchronization response. When
all messages of the round fit and the prevotes share their parents, the proof of a best precommit is accepted.
-/

namespace Catapult.Finalization
open RoundMessageAggregator

namespace FinalizationMessage

/-- The bytes of the message after its header, which are compared by `GroupFinalizationMessageComparer`. -/
def verifiableBytes (message : FinalizationMessage) : List UInt8 :=
  leBytes 4 message.version.toNat ++ (leBytes 4 message.hashes.length ++
    (leBytes 4 message.stepIdentifier.epoch.toNat ++ (leBytes 4 message.stepIdentifier.pointStage.toNat ++
      (leBytes 8 message.height.toNat ++ message.hashes.flatMap fun hash => beBytes 32 hash.toNat))))

/-- `GroupFinalizationMessageComparer` orders messages by this key: by size, then by bytes. -/
def groupKey (message : FinalizationMessage) : ℕ ×ₗ List ℕ :=
  toLex (message.size, message.verifiableBytes.map UInt8.toNat)

theorem toBuffer_eq_of_groupKey_eq {m m' : FinalizationMessage} (h : m.groupKey = m'.groupKey) :
    m.toBuffer = m'.toBuffer := by
  have hbytes : m.verifiableBytes = m'.verifiableBytes :=
    List.map_injective_iff.2 (fun a b => UInt8.toNat_inj.1) (congrArg Prod.snd (toLex.injective h))
  obtain ⟨h1, hbytes⟩ := List.append_inj hbytes (by simp)
  obtain ⟨-, hbytes⟩ := List.append_inj hbytes (by simp)
  obtain ⟨h3, hbytes⟩ := List.append_inj hbytes (by simp)
  obtain ⟨h4, hbytes⟩ := List.append_inj hbytes (by simp)
  obtain ⟨h5, hbytes⟩ := List.append_inj hbytes (by simp)
  have hversion := leBytes_uint32_inj h1
  have hepoch := leBytes_uint32_inj h3
  have hpoint := leBytes_uint32_inj h4
  have hheight := leBytes_uint64_inj h5
  have hhashes : m.hashes = m'.hashes := by
    refine flatMap_inj_of_width (f := fun hash : Hash256 => beBytes 32 hash.toNat) (k := 32) (by omega) ?_ ?_ hbytes
    · exact fun hash => length_beBytes 32 _
    · exact fun a b hab => beBytes_bitVec_inj (k := 32) hab
  have hstep : m.stepIdentifier = m'.stepIdentifier := by
    rw [show m.stepIdentifier = ⟨m.stepIdentifier.epoch, m.stepIdentifier.pointStage⟩ from rfl, hepoch, hpoint]
  simp only [toBuffer, hversion, hstep, hheight, hhashes]

/-- The checks that `GroupMessages` makes of a message. -/
structure CanGroup (round : FinalizationRound) (message : FinalizationMessage) : Prop where
  round_eq : message.stepIdentifier.round = round
  padding : message.reserved1 = 0
  version : message.version = currentVersion

instance (round : FinalizationRound) (message : FinalizationMessage) : Decidable (CanGroup round message) :=
  decidable_of_iff (message.stepIdentifier.round = round ∧ message.reserved1 = 0 ∧ message.version = currentVersion)
    ⟨fun ⟨h1, h2, h3⟩ => ⟨h1, h2, h3⟩, fun ⟨h1, h2, h3⟩ => ⟨h1, h2, h3⟩⟩

theorem CanGroup.eq_with_signature {round : FinalizationRound} {m template : FinalizationMessage}
    (hm : CanGroup round m) (ht : CanGroup round template) (hkey : m.groupKey = template.groupKey) :
    m = { template with signature := m.signature } := by
  have hbuf := toBuffer_eq_of_groupKey_eq hkey
  simp only [toBuffer, VerifiableData.mk.injEq] at hbuf
  obtain ⟨hversion, hstep, hheight, hhashes⟩ := hbuf
  obtain ⟨reserved1, signature, version, stepIdentifier, height, hashes, hcount⟩ := m
  simp only at hversion hstep hheight hhashes
  subst hversion hstep hheight hhashes
  rw [mk.injEq]
  exact ⟨hm.padding.trans ht.padding.symm, rfl, rfl, rfl, rfl, rfl⟩

end FinalizationMessage
open FinalizationMessage

abbrev SignatureGroup := FinalizationMessage × List BmTreeSignature

namespace SignatureGroup

def expand (group : SignatureGroup) : List FinalizationMessage :=
  group.2.map fun signature => { group.1 with signature := signature }

def size (group : SignatureGroup) : Nat := (4 + 4 + 4 + 4 + 8) + group.1.hashes.length * 32 + group.2.length * 192

def addSignature (message : FinalizationMessage) : Option SignatureGroup → SignatureGroup
  | none => (message, [message.signature])
  | some group => (group.1, group.2 ++ [message.signature])

def toMessageGroup (group : SignatureGroup) : FinalizationMessageGroup where
  stage := if group.1.isPrevote then 0 else 1
  height := group.1.height
  hashes := group.1.hashes
  signatures := group.2
  hashesCount_lt := group.1.hashesCount_lt

end SignatureGroup

abbrev MessageSignatureGroups := SortedMap (ℕ ×ₗ List ℕ) SignatureGroup

/-- The loop body of `GroupMessages`. -/
def groupMessage (round : FinalizationRound) (groups : MessageSignatureGroups) (message : FinalizationMessage) :
    MessageSignatureGroups :=
  if CanGroup round message then
    groups.alter message.groupKey fun group => some (SignatureGroup.addSignature message group)
  else groups

def groupMessages (round : FinalizationRound) (messages : List FinalizationMessage) : List SignatureGroup :=
  (messages.foldl (groupMessage round) ∅).entries.map Prod.snd

structure FinalizationStatistics where
  round : FinalizationRound
  height : UInt64
  hash : Hash256

/-- `sizeof(FinalizationProofHeader)`: size, version, round, height and hash. -/
def proofHeaderSize : Nat := 4 + 4 + 8 + 8 + 32

/-- `CreateFinalizationProof`; `none` when the proof does not fit in its 32-bit size, and in the buffer of that size. -/
def createFinalizationProof (statistics : FinalizationStatistics) (messages : List FinalizationMessage) :
    Option FinalizationProof :=
  let groups := groupMessages statistics.round messages
  if proofHeaderSize + (groups.map SignatureGroup.size).sum < 2 ^ 32 then
    some ⟨FinalizationProof.currentVersion, statistics.round, statistics.height, statistics.hash,
      groups.map SignatureGroup.toMessageGroup⟩
  else none

theorem stage_make (epoch point stage : UInt32) :
    (StepIdentifier.make epoch point stage).stage = if stage.toNat % 2 = 0 then .prevote else .precommit := by
  have hbit : ((StepIdentifier.make epoch point stage).pointStage &&& 1).toNat = stage.toNat % 2 := by
    have hmake := StepIdentifier.toNat_pointStage_make epoch point stage
    simp only [UInt32.toNat_and, UInt32.toNat_one, Nat.and_one_is_mod]
    omega
  have hzero : (StepIdentifier.make epoch point stage).pointStage &&& 1 = 0 ↔ stage.toNat % 2 = 0 := by
    rw [← hbit, ← UInt32.toNat_inj]
    rfl
  simp only [StepIdentifier.stage, hzero]

theorem StepIdentifier.make_round (s : StepIdentifier) :
    make s.round.epoch s.round.point (if s.stage = .prevote then 0 else 1) = s := by
  obtain ⟨epoch, pointStage⟩ := s
  have hpoint : (pointStage >>> 1).toNat = pointStage.toNat / 2 := by
    rw [UInt32.toNat_shiftRight]
    simp [Nat.shiftRight_eq_div_pow]
  have hbit : (pointStage &&& 1).toNat = pointStage.toNat % 2 := by simp
  have hstage : (if (⟨epoch, pointStage⟩ : StepIdentifier).stage = .prevote then (0 : UInt32) else 1).toNat % 2 =
      pointStage.toNat % 2 := by
    unfold stage
    by_cases h : pointStage &&& 1 = 0
    · have h0 : pointStage.toNat % 2 = 0 := by rw [← hbit, h]; rfl
      simp [h, h0]
    · have h1 : pointStage.toNat % 2 ≠ 0 := fun h0 => h (UInt32.toNat_inj.1 (hbit.trans h0))
      simp only [h, if_false, reduceCtorEq]
      have : (1 : UInt32).toNat = 1 := rfl
      omega
  have hlt := pointStage.toNat_lt
  have hmake := toNat_pointStage_make epoch (pointStage >>> 1)
    (if (⟨epoch, pointStage⟩ : StepIdentifier).stage = .prevote then 0 else 1)
  rw [hstage, hpoint] at hmake
  rw [StepIdentifier.mk.injEq]
  exact ⟨rfl, UInt32.toNat_inj.1 (hmake.trans (by omega))⟩

/-- The groups of the messages `messages`. -/
structure Grouped (round : FinalizationRound) (messages : List FinalizationMessage)
    (groups : MessageSignatureGroups) : Prop where
  template : ∀ e ∈ groups.entries, e.1 = e.2.1.groupKey ∧ CanGroup round e.2.1
  perm : (groups.entries.flatMap fun e => e.2.expand).Perm messages
  size_le : (groups.entries.map fun e => e.2.size).sum ≤ (messages.map FinalizationMessage.size).sum

theorem Grouped.concat {round : FinalizationRound} {messages : List FinalizationMessage}
    {groups : MessageSignatureGroups} {message : FinalizationMessage}
    (h : Grouped round messages groups) (hm : CanGroup round message) :
    Grouped round (messages ++ [message]) (groupMessage round groups message) := by
  rw [groupMessage, if_pos hm]
  obtain ⟨rest, hold, hnew⟩ := groups.entries_alter_perm message.groupKey fun group =>
    some (SignatureGroup.addSignature message group)
  cases hfind : groups.find? message.groupKey with
  | none =>
    rw [hfind, Option.map_none, Option.toList_none, List.nil_append] at hold
    rw [hfind, Option.map_some, Option.toList_some, SignatureGroup.addSignature, List.singleton_append] at hnew
    refine ⟨fun e he => ?_, ?_, ?_⟩
    · rcases List.mem_cons.1 (hnew.mem_iff.1 he) with rfl | he
      · exact ⟨rfl, hm⟩
      · exact h.template e (hold.mem_iff.2 he)
    · refine (hnew.flatMap_right _).trans ?_
      rw [List.flatMap_cons]
      exact (List.perm_append_comm.trans (((hold.symm.flatMap_right _).trans h.perm).append_right _))
    · rw [(hnew.map _).sum_eq, List.map_cons, List.sum_cons, ← (hold.map _).sum_eq, List.map_append, List.sum_append]
      have hle := h.size_le
      simp only [SignatureGroup.size, List.map_cons, List.map_nil, List.sum_cons, List.sum_nil,
        List.length_cons, List.length_nil, FinalizationMessage.size, FinalizationMessage.headerSize]
      simp only [SignatureGroup.size] at hle
      omega
  | some group =>
    rw [hfind, Option.map_some, Option.toList_some, List.singleton_append] at hold
    rw [hfind, Option.map_some, Option.toList_some, SignatureGroup.addSignature, List.singleton_append] at hnew
    obtain ⟨hkey, htemplate⟩ := h.template _ (hold.mem_iff.2 (List.mem_cons_self ..))
    have hexpand : SignatureGroup.expand (group.1, group.2 ++ [message.signature]) = group.expand ++ [message] := by
      rw [SignatureGroup.expand, List.map_append, List.map_cons, List.map_nil, ← hm.eq_with_signature htemplate hkey]
      rfl
    refine ⟨fun e he => ?_, ?_, ?_⟩
    · rcases List.mem_cons.1 (hnew.mem_iff.1 he) with rfl | he
      · exact ⟨hkey, htemplate⟩
      · exact h.template e (hold.mem_iff.2 (List.mem_cons_of_mem _ he))
    · refine (hnew.flatMap_right _).trans ?_
      have hrest := (hold.symm.flatMap_right fun e => e.2.expand).trans h.perm
      rw [List.flatMap_cons] at hrest ⊢
      rw [hexpand]
      refine List.Perm.trans ?_ (hrest.append_right _)
      rw [List.append_assoc, List.append_assoc]
      exact List.perm_append_comm.append_left _
    · rw [(hnew.map _).sum_eq, List.map_cons, List.sum_cons, List.map_append, List.sum_append]
      have hle := h.size_le
      rw [(hold.map _).sum_eq, List.map_cons, List.sum_cons] at hle
      simp only [SignatureGroup.size, List.map_cons, List.map_nil, List.sum_cons, List.sum_nil, List.length_append,
        List.length_cons, List.length_nil, FinalizationMessage.size, FinalizationMessage.headerSize] at hle ⊢
      omega

theorem grouped_foldl {round : FinalizationRound} {messages : List FinalizationMessage}
    (h : ∀ m ∈ messages, CanGroup round m) :
    Grouped round messages (messages.foldl (groupMessage round) ∅) := by
  induction messages using List.reverseRecOn with
  | nil => exact ⟨fun e he => (List.not_mem_nil he).elim, List.Perm.refl _, Nat.le_refl _⟩
  | append_singleton messages message ih =>
    rw [List.foldl_append]
    exact (ih fun m hm => h m (List.mem_append_left _ hm)).concat (h message (by simp))

theorem createTemplateMessage_toMessageGroup {round : FinalizationRound} {group : SignatureGroup}
    (h : CanGroup round group.1) (signature : BmTreeSignature) :
    createTemplateMessage round group.toMessageGroup signature = { group.1 with signature := signature } := by
  have hstep := group.1.stepIdentifier.make_round
  rw [h.round_eq] at hstep
  have hstage : group.toMessageGroup.stage = if group.1.stepIdentifier.stage = .prevote then 0 else 1 := by
    simp [SignatureGroup.toMessageGroup, FinalizationMessage.isPrevote]
  rw [createTemplateMessage, FinalizationMessage.mk.injEq, hstage]
  exact ⟨h.padding.symm, rfl, h.version.symm, hstep, rfl, rfl⟩

theorem createFinalizationProof_of_fits {statistics : FinalizationStatistics} {messages : List FinalizationMessage}
    (h : proofHeaderSize + ((groupMessages statistics.round messages).map SignatureGroup.size).sum < 2 ^ 32) :
    createFinalizationProof statistics messages = some ⟨FinalizationProof.currentVersion, statistics.round,
      statistics.height, statistics.hash,
        (groupMessages statistics.round messages).map SignatureGroup.toMessageGroup⟩ :=
  if_pos h

theorem perm_of_createFinalizationProof {statistics : FinalizationStatistics} {messages : List FinalizationMessage}
    {proof : FinalizationProof} (h : ∀ m ∈ messages, CanGroup statistics.round m)
    (hproof : createFinalizationProof statistics messages = some proof) : proof.messages.Perm messages := by
  have hgroups := grouped_foldl h
  have hmessages : ((groupMessages statistics.round messages).map SignatureGroup.toMessageGroup).flatMap
      (fun group => group.signatures.map (createTemplateMessage statistics.round group)) =
      (messages.foldl (groupMessage statistics.round) ∅).entries.flatMap fun e => e.2.expand := by
    rw [groupMessages, List.map_map, List.flatMap_map]
    refine List.flatMap_congr fun e he => ?_
    exact List.map_congr_left fun signature _ =>
      createTemplateMessage_toMessageGroup (hgroups.template e he).2 signature
  unfold createFinalizationProof at hproof
  dsimp only at hproof
  split at hproof
  · cases hproof
    show (((groupMessages statistics.round messages).map SignatureGroup.toMessageGroup).flatMap
      fun group => group.signatures.map (createTemplateMessage statistics.round group)).Perm messages
    rw [hmessages]
    exact hgroups.perm
  · cases hproof

theorem messages_createFinalizationProof_perm (statistics : FinalizationStatistics)
    {messages : List FinalizationMessage} (h : ∀ m ∈ messages, CanGroup statistics.round m)
    (hsize : proofHeaderSize + (messages.map FinalizationMessage.size).sum < 2 ^ 32) :
    ∃ proof, createFinalizationProof statistics messages = some proof ∧
      proof.version = FinalizationProof.currentVersion ∧ proof.round = statistics.round ∧
      proof.point = ⟨statistics.height, statistics.hash⟩ ∧ proof.messages.Perm messages := by
  have hfits : proofHeaderSize + ((groupMessages statistics.round messages).map SignatureGroup.size).sum < 2 ^ 32 := by
    have hle := (grouped_foldl h).size_le
    rw [groupMessages, List.map_map, Function.comp_def]
    omega
  have hproof := createFinalizationProof_of_fits hfits
  exact ⟨_, hproof, rfl, rfl, rfl, perm_of_createFinalizationProof h hproof⟩

namespace RoundMessageAggregator
variable {crypto : Crypto} {context : FinalizationContext} {agg : RoundMessageAggregator} {A : List FinalizationMessage}

def storedMessages (agg : RoundMessageAggregator) : List FinalizationMessage :=
  agg.messages.entries.map fun e => e.2.message

theorem Accepted.storedMessages_perm (h : Accepted crypto context A agg) : agg.storedMessages.Perm A := by
  rw [storedMessages, h.entries_eq, List.map_map]
  simp only [Function.comp_def, createMessageDescriptor, List.map_id']
  exact List.reverse_perm A

theorem collectUnknown_eq_map {maxResponseSize : UInt64} {totalSize : Nat} {iter : List MessageDescriptor}
    (h : totalSize + (iter.map fun d => d.message.size).sum ≤ maxResponseSize.toNat) :
    collectUnknown maxResponseSize [] totalSize iter = iter.map MessageDescriptor.message := by
  induction iter generalizing totalSize with
  | nil => rfl
  | cons d iter ih =>
    rw [List.map_cons, List.sum_cons] at h
    have hfits : ¬ maxResponseSize.toNat < totalSize + d.message.size := by omega
    rw [collectUnknown, if_neg List.not_mem_nil, if_neg hfits, ih (by omega), List.map_cons]

theorem Accepted.acceptedMessages_eq (h : Accepted crypto context A agg) {messages : List FinalizationMessage}
    (hvalid : ∀ m ∈ messages, Valid crypto context m)
    (hnd : ((A ++ messages).map FinalizationMessage.messageKey).Nodup) :
    acceptedMessages crypto agg messages = messages := by
  induction messages generalizing agg A with
  | nil => rfl
  | cons message messages ih =>
    have hv : Valid crypto agg.finalizationContext message := h.context_eq ▸ hvalid message (List.mem_cons_self ..)
    have hnew : agg.messages.lookup message.messageKey = none := by
      rw [h.lookup_eq_none_iff]
      rw [List.map_append, List.map_cons] at hnd
      exact fun hmem => List.disjoint_of_nodup_append hnd hmem (List.mem_cons_self ..)
    have haccept := h.accept (hvalid message (List.mem_cons_self ..)) hnew
    have htail := ih haccept (fun m hm => hvalid m (List.mem_cons_of_mem _ hm)) (by rwa [List.append_assoc])
    rw [acceptedMessages, add_of_valid hv hnew, h.context_eq]
    have hyes : (some (if message.isPrevote then RoundMessageAggregatorAddResult.successPrevote
        else .successPrecommit)).any RoundMessageAggregatorAddResult.isSuccess = true := by
      cases message.isPrevote <;> rfl
    simp only [hyes, if_true, htail]

/-- What the messages of a round have to meet for its proof to be complete: they fit in a response and in a
proof, and their prevotes share their parents. -/
structure ProofFits (agg : RoundMessageAggregator) : Prop where
  responseSize : (agg.storedMessages.map FinalizationMessage.size).sum ≤
    agg.finalizationContext.config.messageSynchronizationMaxResponseSize.toNat
  proofSize : proofHeaderSize + (agg.storedMessages.map FinalizationMessage.size).sum < 2 ^ 32
  sharedParents : RoundContext.SharedParents (agg.storedMessages.map (voteIn agg.finalizationContext))

end RoundMessageAggregator

namespace MultiRoundMessageAggregator
variable {crypto : Crypto} {config : FinalizationConfiguration} {state : MultiRoundMessageAggregator}
  {order : HashMapOrder} {descriptor : BestPrecommitDescriptor}

theorem tryFindBestPrecommit_spec (h : state.tryFindBestPrecommit order = some descriptor) :
    ∃ agg, state.roundMessageAggregators.find? descriptor.round = some agg ∧
      agg.roundContext.tryFindBestPrecommit = some descriptor.target ∧
      descriptor.proof = agg.unknownMessages [] (order.iterate agg) := by
  obtain ⟨⟨round, agg⟩, hlast, h⟩ := Option.bind_eq_some_iff.1 h
  obtain ⟨target, htarget, h⟩ := Option.bind_eq_some_iff.1 h
  cases h
  exact ⟨agg, (SortedMap.findLast?_eq_some hlast).1, htarget, rfl⟩

/-- In every reachable state, the proof built from the best precommit is accepted in the context of its round when
the messages of the round fit. -/
theorem createFinalizationProof_verifies (hreach : Reachable crypto config state)
    (hbest : state.tryFindBestPrecommit order = some descriptor) {agg : RoundMessageAggregator}
    (hagg : state.roundMessageAggregators.find? descriptor.round = some agg) (hfits : ProofFits agg) :
    ∃ proof, createFinalizationProof ⟨descriptor.round, descriptor.target.height, descriptor.target.hash⟩
      descriptor.proof = some proof ∧
      verifyFinalizationProof crypto proof agg.finalizationContext = some .success := by
  obtain ⟨agg', hagg', htarget, hproof⟩ := tryFindBestPrecommit_spec hbest
  rw [hagg, Option.some.injEq] at hagg'
  subst hagg'
  have hok := hreach.wellFormed.rounds _ _ hagg
  obtain ⟨A, hA, hrounds⟩ := hok.accepted
  have hiter : ((order.iterate agg).map MessageDescriptor.message).Perm agg.storedMessages := by
    have hperm := (order.perm agg).map MessageDescriptor.message
    rwa [List.map_map] at hperm
  have hmessages : descriptor.proof = (order.iterate agg).map MessageDescriptor.message := by
    rw [hproof, unknownMessages, collectUnknown_eq_map]
    have hsum := (hiter.map FinalizationMessage.size).sum_eq
    rw [List.map_map] at hsum
    rw [Nat.zero_add]
    exact hsum.trans_le hfits.responseSize
  rw [← hmessages] at hiter
  have hpermA := hiter.trans hA.storedMessages_perm
  have hcan : ∀ m ∈ descriptor.proof, CanGroup descriptor.round m := by
    intro m hm
    have hmA := hpermA.mem_iff.1 hm
    exact ⟨hrounds m hmA, (hA.valid m hmA).authentic.padding, (hA.valid m hmA).authentic.version⟩
  obtain ⟨proof, hcreate, hversion, hround, hpoint, hperm⟩ := messages_createFinalizationProof_perm
    ⟨descriptor.round, descriptor.target.height, descriptor.target.hash⟩ hcan
    (by rw [(hiter.map _).sum_eq]; exact hfits.proofSize)
  have hpermProof := hperm.trans hpermA
  have haccepted : acceptedMessages crypto (RoundMessageAggregator.create agg.finalizationContext)
      proof.messages = proof.messages := by
    refine (Accepted.create crypto agg.finalizationContext).acceptedMessages_eq
      (fun m hm => hA.valid m (hpermProof.mem_iff.1 hm)) ?_
    rw [List.nil_append]
    exact (hpermProof.map _).nodup_iff.2 hA.messageKey_nodup
  -- the replayed votes are those of the round in another order
  have hshared : RoundContext.SharedParents (A.map (voteIn agg.finalizationContext)) := by
    obtain ⟨parent, hparent⟩ := hfits.sharedParents
    exact ⟨parent, fun v hv => hparent v ((hA.storedMessages_perm.map _).mem_iff.2 hv)⟩
  have hreplayed := accepted_addAll crypto agg.finalizationContext proof.messages
  rw [haccepted] at hreplayed
  have hsame := (RoundContext.run_sameOutcome agg.finalizationContext.weight
    agg.finalizationContext.weightedThreshold hshared
      (hpermProof.map (voteIn agg.finalizationContext))).tryFindBestPrecommit
  rw [← hreplayed.roundContext_eq, ← hA.roundContext_eq, htarget,
    show descriptor.target = proof.point from hpoint.symm] at hsame
  exact ⟨proof, hcreate, verifyFinalizationProof_success_iff.2 ⟨hversion, hround ▸ hok.epoch_eq.symm, haccepted, hsame⟩⟩

/-- The state of a new aggregator for point 1 of epoch 2 after adding `messages`. -/
def sampleState (config : FinalizationConfiguration) (accounts : HighValueAccounts)
    (messages : List FinalizationMessage) : MultiRoundMessageAggregator :=
  messages.foldl (fun state message => (state.add sampleCrypto accounts message).2) (create config ⟨2, 1⟩ ⟨1, 1⟩)

theorem reachable_sampleState (config : FinalizationConfiguration) (accounts : HighValueAccounts)
    (messages : List FinalizationMessage) : Reachable sampleCrypto config (sampleState config accounts messages) := by
  induction messages using List.reverseRecOn with
  | nil => exact .create _ _
  | append_singleton messages message ih =>
    rw [sampleState, List.foldl_append]
    exact .add accounts message ih

def sampleOrder : HashMapOrder := ⟨fun agg => agg.messages.entries.map Sigma.snd, fun _ => List.Perm.refl _⟩

/-- A prevote and a precommit of one voter with 70 % of the weight, stored with the settings `config`. -/
def provenState (config : FinalizationConfiguration) : MultiRoundMessageAggregator :=
  sampleState config (twoVoters 7000 3000 balances_lt) [sampleMessage 1 0, sampleMessage 1 1]

theorem reachable_provenState (config : FinalizationConfiguration) :
    Reachable sampleCrypto config (provenState config) :=
  reachable_sampleState ..

theorem createFinalizationProof_verifies_sample : ∃ descriptor agg proof,
    (provenState defaultConfig).tryFindBestPrecommit sampleOrder = some descriptor ∧
    (provenState defaultConfig).roundMessageAggregators.find? descriptor.round = some agg ∧ ProofFits agg ∧
    createFinalizationProof ⟨descriptor.round, descriptor.target.height, descriptor.target.hash⟩
      descriptor.proof = some proof ∧
    verifyFinalizationProof sampleCrypto proof agg.finalizationContext = some .success := by
  obtain ⟨descriptor, hbest⟩ := Option.isSome_iff_exists.1
    (show ((provenState defaultConfig).tryFindBestPrecommit sampleOrder).isSome by decide +kernel)
  obtain ⟨agg, hagg, -, -⟩ := tryFindBestPrecommit_spec hbest
  have hall : (provenState defaultConfig).roundMessageAggregators.entries.all (fun e =>
      decide ((e.2.storedMessages.map FinalizationMessage.size).sum ≤
        e.2.finalizationContext.config.messageSynchronizationMaxResponseSize.toNat) &&
      decide (proofHeaderSize + (e.2.storedMessages.map FinalizationMessage.size).sum < 2 ^ 32) &&
      (e.2.storedMessages.map (voteIn e.2.finalizationContext)).all fun v => v.prevoteKeys.tail.isEmpty) = true := by
    decide +kernel
  have hin : (descriptor.round, agg) ∈ (provenState defaultConfig).roundMessageAggregators.entries :=
    SortedMap.mem_entries_iff.2 hagg
  have hmem := List.all_eq_true.1 hall _ hin
  simp only [Bool.and_eq_true, decide_eq_true_eq, List.all_eq_true, List.isEmpty_iff] at hmem
  have hfits : ProofFits agg := by
    refine ⟨hmem.1.1, hmem.1.2, fun _ => none, fun v hv => ?_⟩
    cases hkeys : v.prevoteKeys with
    | nil => trivial
    | cons key keys =>
      have htail := hmem.2 v hv
      rw [hkeys, List.tail_cons] at htail
      rw [htail]
      exact ⟨rfl, trivial⟩
  obtain ⟨proof, hproof⟩ := createFinalizationProof_verifies (reachable_provenState defaultConfig) hbest hagg hfits
  exact ⟨descriptor, agg, proof, hbest, hagg, hfits, hproof⟩

def proofAccepted (state : MultiRoundMessageAggregator) : Bool :=
  (state.tryFindBestPrecommit sampleOrder).any fun descriptor =>
    (state.roundMessageAggregators.find? descriptor.round).any fun agg =>
      (createFinalizationProof ⟨descriptor.round, descriptor.target.height, descriptor.target.hash⟩
        descriptor.proof).any fun proof =>
        verifyFinalizationProof sampleCrypto proof agg.finalizationContext == some .success

theorem proofAccepted_of_complete {state : MultiRoundMessageAggregator}
    (hsome : (state.tryFindBestPrecommit sampleOrder).isSome)
    (h : ∀ descriptor agg, state.tryFindBestPrecommit sampleOrder = some descriptor →
      state.roundMessageAggregators.find? descriptor.round = some agg →
      ∃ proof, createFinalizationProof ⟨descriptor.round, descriptor.target.height, descriptor.target.hash⟩
        descriptor.proof = some proof ∧
      verifyFinalizationProof sampleCrypto proof agg.finalizationContext = some .success) :
    proofAccepted state = true := by
  obtain ⟨descriptor, hbest⟩ := Option.isSome_iff_exists.1 hsome
  obtain ⟨agg, hagg, -, -⟩ := tryFindBestPrecommit_spec hbest
  obtain ⟨proof, hcreate, hverify⟩ := h descriptor agg hbest hagg
  simp [proofAccepted, hbest, hagg, hcreate, hverify]

/-- With a response size of zero, the proof of a finalized point has no messages and is rejected. -/
theorem truncated_proof_rejected : ¬ ∀ (crypto : Crypto) (config : FinalizationConfiguration)
    (state : MultiRoundMessageAggregator) (order : HashMapOrder) (descriptor : BestPrecommitDescriptor)
    (agg : RoundMessageAggregator),
    Reachable crypto config state → state.tryFindBestPrecommit order = some descriptor →
    state.roundMessageAggregators.find? descriptor.round = some agg →
    ∃ proof, createFinalizationProof ⟨descriptor.round, descriptor.target.height, descriptor.target.hash⟩
      descriptor.proof = some proof ∧
      verifyFinalizationProof crypto proof agg.finalizationContext = some .success := by
  intro h
  have hrejected :
      proofAccepted (provenState { defaultConfig with messageSynchronizationMaxResponseSize := 0 }) = false := by
    decide +kernel
  rw [proofAccepted_of_complete (by decide +kernel) fun descriptor agg =>
    h sampleCrypto _ _ sampleOrder descriptor agg (reachable_provenState _)] at hrejected
  cases hrejected

end MultiRoundMessageAggregator
end Catapult.Finalization
