import Catapult.Finalization.Context
import Catapult.Finalization.RoundContext

/-!
# Aggregation of the messages of one round (`RoundMessageAggregator`)

`add` checks a message, looks it up by voting key and stage, verifies it and hands it to the round context. `Accepted`
ties the aggregator to the list of messages it has accepted: these are exactly the stored messages, no two of them
have the same voter and stage, each of them is `Valid`, and the round context has counted one vote for each.
-/

namespace Catapult.Finalization

inductive RoundMessageAggregatorAddResult where
  | failureInvalidHashes
  | failureInvalidPoint
  | failureInvalidHeight
  | failureProcessing
  | failureConflicting
  | neutralRedundant
  | successPrevote
  | successPrecommit
deriving DecidableEq, Repr

/-- The message was accepted, that is `Neutral_Redundant < result`. -/
def RoundMessageAggregatorAddResult.isSuccess : RoundMessageAggregatorAddResult → Bool
  | successPrevote | successPrecommit => true
  | _ => false

structure MessageDescriptor where
  message : FinalizationMessage
  hash : Hash256
  shortHash : UInt32

def createMessageDescriptor (crypto : Crypto) (message : FinalizationMessage) : MessageDescriptor :=
  let hash := crypto.calculateMessageHash message
  ⟨message, hash, toShortHash hash⟩

namespace FinalizationMessage

/-- The key of `m_messages`: the voting key of the sender and the stage. -/
def messageKey (message : FinalizationMessage) : VotingKey × Bool := (message.voter, message.isPrevote)

def lastHashHeight (message : FinalizationMessage) : UInt64 :=
  message.height + UInt64.ofNat (message.hashes.length - 1)

def precommitPoint (message : FinalizationMessage) : HeightHashPair := ⟨message.height, message.hashes.headD 0⟩

/-- The vote that the message stands for when it has weight `weight`. -/
def vote (message : FinalizationMessage) (weight : UInt64) : Vote :=
  if message.isPrevote then .prevote message.height message.hashes message.hashesCount_lt weight
  else .precommit message.height (message.hashes.headD 0) weight

/-- The stage specific checks of `add`: a prevote stays inside its epoch, a precommit has one hash.
`none` when the epoch or the grouping is not supported and `CalculateVotingSetEndHeight` throws. -/
def hasValidHashes (message : FinalizationMessage) (votingSetGrouping : UInt64) : Option Bool :=
  if message.isPrevote then do
    let epochMinHeight ← calculateVotingSetEndHeight (message.stepIdentifier.epoch - 1) votingSetGrouping
    let epochMaxHeight ← calculateVotingSetEndHeight message.stepIdentifier.epoch votingSetGrouping
    return !(decide (message.height < epochMinHeight) || decide (epochMaxHeight < message.lastHashHeight))
  else some (message.hashes.length == 1)

end FinalizationMessage

structure RoundMessageAggregator where
  finalizationContext : FinalizationContext
  roundContext : RoundContext
  messages : AList (fun _ : VotingKey × Bool => MessageDescriptor)

namespace RoundMessageAggregator
variable {crypto : Crypto} {context : FinalizationContext} {agg : RoundMessageAggregator}
  {message : FinalizationMessage} {A : List FinalizationMessage}

def create (context : FinalizationContext) : RoundMessageAggregator where
  finalizationContext := context
  roundContext := { totalWeight := context.weight, threshold := context.weightedThreshold }
  messages := ∅

/-- The loop of `unknownMessages` over the stored messages in the order `iter` of the hash map, with
the size of the messages collected so far. -/
def collectUnknown (maxResponseSize : UInt64) (knownShortHashes : List UInt32) :
    Nat → List MessageDescriptor → List FinalizationMessage
  | _, [] => []
  | totalSize, d :: iter =>
    if d.shortHash ∈ knownShortHashes then collectUnknown maxResponseSize knownShortHashes totalSize iter
    else if maxResponseSize.toNat < totalSize + d.message.size then []
    else d.message :: collectUnknown maxResponseSize knownShortHashes (totalSize + d.message.size) iter

/-- `unknownMessages` when the hash map is iterated in the order `iter`. -/
def unknownMessages (agg : RoundMessageAggregator) (knownShortHashes : List UInt32) (iter : List MessageDescriptor) :
    List FinalizationMessage :=
  collectUnknown agg.finalizationContext.config.messageSynchronizationMaxResponseSize knownShortHashes 0 iter

/-- Stores an accepted message of weight `weight` and counts its vote. -/
def accept (crypto : Crypto) (agg : RoundMessageAggregator) (message : FinalizationMessage) (weight : UInt64) :
    RoundMessageAggregator :=
  { agg with
    messages := agg.messages.insert message.messageKey (createMessageDescriptor crypto message)
    roundContext := agg.roundContext.accept (message.vote weight) }

/-- `add`; the result is `none` when an exception is thrown. -/
def add (crypto : Crypto) (agg : RoundMessageAggregator) (message : FinalizationMessage) :
    Option RoundMessageAggregatorAddResult × RoundMessageAggregator :=
  let config := agg.finalizationContext.config
  if message.hashes.length = 0 ∨ config.maxHashesPerPoint.toNat < message.hashes.length then
    (some .failureInvalidHashes, agg)
  else if message.lastHashHeight < agg.finalizationContext.height then
    (some .failureInvalidHeight, agg)
  else match message.hasValidHashes config.votingSetGrouping with
  | none => (none, agg)
  | some false => (some .failureInvalidHashes, agg)
  | some true =>
    match agg.messages.lookup message.messageKey with
    | some descriptor =>
      (some (if descriptor.hash = crypto.calculateMessageHash message then .neutralRedundant
        else .failureConflicting), agg)
    | none =>
      match processMessage crypto message agg.finalizationContext with
      | (.success, weight) =>
        (some (if message.isPrevote then .successPrevote else .successPrecommit), agg.accept crypto message weight)
      | _ => (some .failureProcessing, agg)

/-- What `add` demands of a message, apart from its sender not having sent one yet. -/
structure Valid (crypto : Crypto) (context : FinalizationContext) (message : FinalizationMessage) : Prop where
  hashes_ne : message.hashes ≠ []
  hashesCount_le : message.hashes.length ≤ context.config.maxHashesPerPoint.toNat
  height_le : context.height ≤ message.lastHashHeight
  hashes : message.hasValidHashes context.config.votingSetGrouping = some true
  authentic : Authentic crypto context message

theorem add_of_valid (h : Valid crypto agg.finalizationContext message)
    (hnew : agg.messages.lookup message.messageKey = none) :
    agg.add crypto message = (some (if message.isPrevote then .successPrevote else .successPrecommit),
      agg.accept crypto message (agg.finalizationContext.lookup message.voter)) := by
  have h1 : ¬ (message.hashes.length = 0 ∨
      agg.finalizationContext.config.maxHashesPerPoint.toNat < message.hashes.length) := by
    have := h.hashesCount_le
    have := List.length_pos_iff.2 h.hashes_ne
    omega
  have h2 : ¬ message.lastHashHeight < agg.finalizationContext.height := UInt64.not_lt.2 h.height_le
  unfold add
  simp only [if_neg h1, if_neg h2, h.hashes, hnew, processMessage_weight h.authentic]

theorem add_cases (crypto : Crypto) (agg : RoundMessageAggregator) (message : FinalizationMessage) :
    ((agg.add crypto message).2 = agg ∧
      (agg.add crypto message).1.any RoundMessageAggregatorAddResult.isSuccess = false) ∨
      (Valid crypto agg.finalizationContext message ∧ agg.messages.lookup message.messageKey = none) := by
  by_cases h1 : message.hashes.length = 0 ∨
      agg.finalizationContext.config.maxHashesPerPoint.toNat < message.hashes.length
  · left; unfold add; simp only [if_pos h1]
    exact ⟨trivial, rfl⟩
  by_cases h2 : message.lastHashHeight < agg.finalizationContext.height
  · left; unfold add; simp only [if_neg h1, if_pos h2]
    exact ⟨trivial, rfl⟩
  cases h3 : message.hasValidHashes agg.finalizationContext.config.votingSetGrouping with
  | none =>
    left; unfold add; simp only [if_neg h1, if_neg h2, h3]
    exact ⟨trivial, rfl⟩
  | some b =>
    cases b with
    | false =>
      left; unfold add; simp only [if_neg h1, if_neg h2, h3]
      exact ⟨trivial, rfl⟩
    | true =>
      cases h4 : agg.messages.lookup message.messageKey with
      | some d =>
        left; unfold add; simp only [if_neg h1, if_neg h2, h3, h4]
        refine ⟨trivial, ?_⟩
        split <;> rfl
      | none =>
        by_cases h5 : (processMessage crypto message agg.finalizationContext).1 = .success
        · right
          refine ⟨⟨?_, ?_, UInt64.not_lt.1 h2, h3, processMessage_success_iff.1 h5⟩, rfl⟩
          · intro hnil; simp [hnil] at h1
          · omega
        · left; unfold add; simp only [if_neg h1, if_neg h2, h3, h4]
          split
          · rename_i w hw; simp [hw] at h5
          · exact ⟨rfl, rfl⟩

/-- The aggregator after adding `messages` one after the other. -/
def addAll (crypto : Crypto) (agg : RoundMessageAggregator) (messages : List FinalizationMessage) :
    RoundMessageAggregator :=
  messages.foldl (fun agg message => (agg.add crypto message).2) agg

/-- The messages among `messages` that are accepted when they are added one after the other. -/
def acceptedMessages (crypto : Crypto) : RoundMessageAggregator → List FinalizationMessage → List FinalizationMessage
  | _, [] => []
  | agg, message :: messages =>
    let result := agg.add crypto message
    if result.1.any RoundMessageAggregatorAddResult.isSuccess then message :: acceptedMessages crypto result.2 messages
    else acceptedMessages crypto result.2 messages

theorem acceptedMessages_length_le (crypto : Crypto) (agg : RoundMessageAggregator)
    (messages : List FinalizationMessage) :
    (acceptedMessages crypto agg messages).length ≤ messages.length := by
  induction messages generalizing agg with
  | nil => exact Nat.le_refl _
  | cons message messages ih =>
    rw [acceptedMessages]
    have := ih (agg.add crypto message).2
    split <;> simp only [List.length_cons] <;> omega

theorem acceptedMessages_ne_cons (crypto : Crypto) (agg : RoundMessageAggregator) (message : FinalizationMessage)
    (messages : List FinalizationMessage) : acceptedMessages crypto agg messages ≠ message :: messages := by
  intro h
  have hle := acceptedMessages_length_le crypto agg messages
  rw [h, List.length_cons] at hle
  omega

def voteIn (context : FinalizationContext) (message : FinalizationMessage) : Vote :=
  message.vote (context.lookup message.voter)

/-- The aggregator has accepted exactly the messages `A`, in this order. -/
structure Accepted (crypto : Crypto) (context : FinalizationContext) (A : List FinalizationMessage)
    (agg : RoundMessageAggregator) : Prop where
  context_eq : agg.finalizationContext = context
  roundContext_eq : agg.roundContext = RoundContext.run context.weight context.weightedThreshold
    (A.map (voteIn context))
  entries_eq : agg.messages.entries = A.reverse.map fun m => ⟨m.messageKey, createMessageDescriptor crypto m⟩
  valid : ∀ m ∈ A, Valid crypto context m

namespace Accepted

theorem create (crypto : Crypto) (context : FinalizationContext) : Accepted crypto context [] (create context) :=
  ⟨rfl, rfl, rfl, fun _ h => by simp at h⟩

theorem accept (h : Accepted crypto context A agg) (hv : Valid crypto context message)
    (hnew : agg.messages.lookup message.messageKey = none) :
    Accepted crypto context (A ++ [message]) (agg.accept crypto message (context.lookup message.voter)) := by
  refine ⟨h.context_eq, ?_, ?_, fun m hm => ?_⟩
  · simp [RoundMessageAggregator.accept, h.roundContext_eq, RoundContext.run, voteIn]
  · show (agg.messages.insert message.messageKey (createMessageDescriptor crypto message)).entries = _
    rw [AList.entries_insert_of_notMem (AList.lookup_eq_none.1 hnew), h.entries_eq]
    simp
  · rcases List.mem_append.1 hm with hm | hm
    · exact h.valid m hm
    · rw [List.mem_singleton.1 hm]; exact hv

theorem messageKey_nodup (h : Accepted crypto context A agg) : (A.map FinalizationMessage.messageKey).Nodup := by
  have hnd := agg.messages.nodupKeys
  rw [List.NodupKeys, List.keys, h.entries_eq, List.map_map] at hnd
  have : (A.reverse.map FinalizationMessage.messageKey).Nodup := hnd
  rwa [List.map_reverse, List.nodup_reverse] at this

theorem lookup_eq_none_iff (h : Accepted crypto context A agg) {key : VotingKey × Bool} :
    agg.messages.lookup key = none ↔ key ∉ A.map FinalizationMessage.messageKey := by
  rw [AList.lookup_eq_none, AList.mem_keys, AList.keys, List.keys, h.entries_eq, List.map_map]
  simp

theorem addAll (h : Accepted crypto context A agg) (messages : List FinalizationMessage) :
    Accepted crypto context (A ++ acceptedMessages crypto agg messages) (agg.addAll crypto messages) := by
  induction messages generalizing agg A with
  | nil => simpa [acceptedMessages, RoundMessageAggregator.addAll] using h
  | cons message messages ih =>
    rw [acceptedMessages, show agg.addAll crypto (message :: messages) =
      (agg.add crypto message).2.addAll crypto messages from rfl]
    rcases add_cases crypto agg message with ⟨hsame, hfail⟩ | ⟨hv, hnew⟩
    · simp only [hfail, hsame]
      exact ih h
    · rw [add_of_valid hv hnew]
      have hv' := hv
      rw [h.context_eq] at hv'
      have h' := ih (h.accept hv' hnew)
      rw [List.append_assoc] at h'
      have hyes : (some (if message.isPrevote then RoundMessageAggregatorAddResult.successPrevote
          else .successPrecommit)).any RoundMessageAggregatorAddResult.isSuccess = true := by
        cases message.isPrevote <;> rfl
      simp only [hyes, if_true, h.context_eq]
      exact h'

end Accepted

theorem accepted_addAll (crypto : Crypto) (context : FinalizationContext) (messages : List FinalizationMessage) :
    Accepted crypto context (acceptedMessages crypto (create context) messages)
      ((create context).addAll crypto messages) := by
  simpa using (Accepted.create crypto context).addAll messages

end RoundMessageAggregator
end Catapult.Finalization
