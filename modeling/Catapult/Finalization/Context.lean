import Catapult.Finalization.HashTree
import Catapult.Lib.WeightSum
import Mathlib.Data.List.AList

/-!
# Finalization messages

Rounds, step identifiers and finalization messages, as `model::FinalizationRound`,
`model::StepIdentifier` and `model::FinalizationMessage` lay them out. A message has a trailing
array of hashes whose length is the 32-bit field `HashesCount`. What is signed is the message without
its header (`ToBuffer`): the size, the padding and the signature itself are not.

Signature verification and message hashing are parameters (`Crypto`).
-/

namespace Catapult.Finalization

abbrev VotingKey := BitVec 256
abbrev VotingSignature := BitVec 512

structure FinalizationRound where
  epoch : UInt32
  point : UInt32
deriving Repr

/-- `FinalizationRound::operator<`: by epoch, then by point. -/
instance : LinearOrder FinalizationRound :=
  LinearOrder.lift' (fun r => toLex (r.epoch.toNat, r.point.toNat)) fun ⟨e, p⟩ ⟨e', p'⟩ heq => by
    simp only [EmbeddingLike.apply_eq_iff_eq, Prod.mk.injEq] at heq
    rw [FinalizationRound.mk.injEq]
    exact ⟨UInt32.toNat_inj.1 heq.1, UInt32.toNat_inj.1 heq.2⟩

inductive FinalizationStage where
  | prevote
  | precommit
deriving DecidableEq, Repr

/-- The epoch and, in one word, the point and the stage bit. -/
structure StepIdentifier where
  epoch : UInt32
  pointStage : UInt32
deriving DecidableEq, Repr

namespace StepIdentifier

/-- The constructor of `StepIdentifier`; only the lowest bit of the (raw) stage is kept. -/
def make (epoch point stage : UInt32) : StepIdentifier := ⟨epoch, (point <<< 1) ||| (stage &&& 1)⟩

def round (s : StepIdentifier) : FinalizationRound := ⟨s.epoch, s.pointStage >>> 1⟩

def stage (s : StepIdentifier) : FinalizationStage :=
  if s.pointStage &&& 1 = 0 then .prevote else .precommit

end StepIdentifier

structure ParentPublicKeySignaturePair where
  parentPublicKey : VotingKey
  signature : VotingSignature
deriving DecidableEq, Repr

structure BmTreeSignature where
  root : ParentPublicKeySignaturePair
  bottom : ParentPublicKeySignaturePair
deriving DecidableEq, Repr

@[ext]
structure FinalizationMessage where
  reserved1 : UInt32
  signature : BmTreeSignature
  version : UInt32
  stepIdentifier : StepIdentifier
  height : UInt64
  hashes : List Hash256
  /-- `HashesCount` is a 32-bit field. -/
  hashesCount_lt : hashes.length < 2 ^ 32

instance : DecidableEq FinalizationMessage := fun _ _ => decidable_of_iff' _ FinalizationMessage.ext_iff

/-- The signed part of a message (`ToBuffer`). -/
structure VerifiableData where
  version : UInt32
  stepIdentifier : StepIdentifier
  height : UInt64
  hashes : List Hash256
deriving DecidableEq

namespace FinalizationMessage

def currentVersion : UInt32 := 1

/-- `sizeof(FinalizationMessage)`: size, padding, signature, version, hashes count, step identifier and height. -/
def headerSize : Nat := 4 + 4 + 2 * (32 + 64) + 4 + 4 + 8 + 8

/-- `CalculateRealSize`, which `Size` is checked against when a message is received. -/
def size (message : FinalizationMessage) : Nat := headerSize + message.hashes.length * 32

def toBuffer (message : FinalizationMessage) : VerifiableData :=
  ⟨message.version, message.stepIdentifier, message.height, message.hashes⟩

def voter (message : FinalizationMessage) : VotingKey := message.signature.root.parentPublicKey

/-- `IsPrevote` of the round message aggregator. -/
def isPrevote (message : FinalizationMessage) : Bool := message.stepIdentifier.stage = .prevote

end FinalizationMessage

/-- Signature verification (`crypto::Verify`, by key identifier) and `CalculateMessageHash`. -/
structure Crypto where
  verify : BmTreeSignature → UInt64 → VerifiableData → Bool
  calculateMessageHash : FinalizationMessage → Hash256

def stepIdentifierToBmKeyIdentifier (s : StepIdentifier) : UInt64 := s.epoch.toUInt64

/-- `utils::ToShortHash`: the first four bytes, read as a little-endian word. -/
def toShortHash (hash : Hash256) : UInt32 :=
  let byte (i : Nat) : Nat := (hash.toNat >>> (8 * (31 - i))) % 256
  UInt32.ofNat (byte 0 + 256 * byte 1 + 256 ^ 2 * byte 2 + 256 ^ 3 * byte 3)

/-- `model::CalculateVotingSetEndHeight`; `none` when `CheckParameters` throws. -/
def calculateVotingSetEndHeight (epoch : UInt32) (grouping : UInt64) : Option UInt64 :=
  if grouping = 0 ∨ epoch = 0 then none
  else if epoch = 1 then some 1
  else some ((epoch - 1).toUInt64 * grouping)

/-!
## The voters of an epoch (`FinalizationContext`)

A context is built from the histories of the high value accounts: every account with a balance at the
context height and a voting key for the epoch is a voter, unless it is excluded by the treasury
reissuance. `m_accounts` keeps the first account of a voting key while `m_weight` sums all of them, so
the accounts a context knows never outweigh `weight()` (`sum_accounts_le`).
-/

abbrev Address := BitVec 192

structure PinnedVotingKey where
  votingKey : VotingKey
  startEpoch : UInt32
  endEpoch : UInt32
deriving DecidableEq, Repr

def findVotingPublicKeyForEpoch (pinnedPublicKeys : List PinnedVotingKey) (epoch : UInt32) : VotingKey :=
  match pinnedPublicKeys.find? fun k => decide (k.startEpoch ≤ epoch) && decide (epoch ≤ k.endEpoch) with
  | some k => k.votingKey
  | none => 0

/-- The settings of `FinalizationConfiguration` that finalization rounds read. -/
structure FinalizationConfiguration where
  size : UInt64
  threshold : UInt64
  messageSynchronizationMaxResponseSize : UInt64
  maxHashesPerPoint : UInt32
  votingSetGrouping : UInt64
  treasuryReissuanceEpoch : UInt32
  treasuryReissuanceEpochIneligibleVoterAddresses : List Address

/-- The balances and voting keys of a high value account by height (`state::AccountHistory`). -/
structure AccountHistory where
  balance : UInt64 → UInt64
  votingPublicKeys : UInt64 → List PinnedVotingKey

/-- `AddressAccountHistoryMap` in iteration order. The balances at one height are parts of the supply
of one mosaic, which is an `Amount` itself. -/
structure HighValueAccounts where
  accountHistories : List (Address × AccountHistory)
  addresses_nodup : (accountHistories.map Prod.fst).Nodup
  supply_lt : ∀ height, (accountHistories.map fun p => (p.2.balance height).toNat).sum < 2 ^ 64

structure FinalizationContext where
  epoch : UInt32
  height : UInt64
  config : FinalizationConfiguration
  weight : UInt64
  accounts : AList (fun _ : VotingKey => UInt64)

namespace FinalizationContext

def addAccount (context : FinalizationContext) (account : Address × AccountHistory) : FinalizationContext :=
  let balance := account.2.balance context.height
  let effectiveVotingPublicKey :=
    findVotingPublicKeyForEpoch (account.2.votingPublicKeys context.height) context.epoch
  if balance = 0 then context
  else if effectiveVotingPublicKey = 0 then context
  else if context.config.treasuryReissuanceEpoch ≤ context.epoch ∧
      account.1 ∈ context.config.treasuryReissuanceEpochIneligibleVoterAddresses then context
  else
    { context with
      -- `emplace` keeps an account that has the key already
      accounts := if effectiveVotingPublicKey ∈ context.accounts then context.accounts
        else context.accounts.insert effectiveVotingPublicKey balance
      weight := context.weight + balance }

def create (epoch : UInt32) (height : UInt64) (config : FinalizationConfiguration) (accounts : HighValueAccounts) :
    FinalizationContext :=
  accounts.accountHistories.foldl addAccount ⟨epoch, height, config, 0, ∅⟩

def lookup (context : FinalizationContext) (votingPublicKey : VotingKey) : UInt64 :=
  (context.accounts.lookup votingPublicKey).getD 0

def isEligibleVoter (context : FinalizationContext) (votingPublicKey : VotingKey) : Bool :=
  context.lookup votingPublicKey ≠ 0

/-- `CalculateWeightedThreshold`: a 64-bit product, divided by the size. -/
def weightedThreshold (context : FinalizationContext) : UInt64 :=
  context.weight * context.config.threshold / context.config.size

def accountsWeight (accounts : AList (fun _ : VotingKey => UInt64)) : Nat :=
  (accounts.entries.map fun e => e.2.toNat).sum

theorem addAccount_spec (context : FinalizationContext) (account : Address × AccountHistory) :
    (context.addAccount account).height = context.height ∧
      ∃ d ≤ (account.2.balance context.height).toNat,
        (context.addAccount account).weight = context.weight + UInt64.ofNat d ∧
        accountsWeight (context.addAccount account).accounts ≤ accountsWeight context.accounts + d := by
  unfold addAccount
  simp only
  split
  · exact ⟨rfl, 0, Nat.zero_le _, by simp, Nat.le_refl _⟩
  split
  · exact ⟨rfl, 0, Nat.zero_le _, by simp, Nat.le_refl _⟩
  split
  · exact ⟨rfl, 0, Nat.zero_le _, by simp, Nat.le_refl _⟩
  · refine ⟨rfl, (account.2.balance context.height).toNat, Nat.le_refl _, by simp, ?_⟩
    simp only
    split
    · omega
    · rename_i hmem
      rw [accountsWeight, AList.entries_insert_of_notMem hmem, List.map_cons, List.sum_cons, Nat.add_comm]
      exact Nat.le_refl _

theorem sum_accounts_le (epoch : UInt32) (height : UInt64) (config : FinalizationConfiguration)
    (accounts : HighValueAccounts) :
    accountsWeight (create epoch height config accounts).accounts ≤
      (create epoch height config accounts).weight.toNat := by
  have hfold : ∀ (l : List (Address × AccountHistory)) (c : FinalizationContext),
      c.weight.toNat + (l.map fun p => (p.2.balance c.height).toNat).sum < 2 ^ 64 →
      accountsWeight c.accounts ≤ c.weight.toNat →
      accountsWeight (l.foldl addAccount c).accounts ≤ (l.foldl addAccount c).weight.toNat := by
    intro l
    induction l with
    | nil => exact fun c _ h => h
    | cons a l ih =>
      intro c hlt hle
      obtain ⟨hheight, d, hd, hweight, hacc⟩ := c.addAccount_spec a
      simp only [List.map_cons, List.sum_cons] at hlt
      have hw : (c.addAccount a).weight.toNat = c.weight.toNat + d := by
        rw [hweight, UInt64.toNat_add, UInt64.toNat_ofNat', Nat.mod_eq_of_lt (by omega), Nat.mod_eq_of_lt (by omega)]
      exact ih _ (by rw [hheight, hw]; omega) (by omega)
  refine hfold _ _ ?_ (Nat.zero_le _)
  have := accounts.supply_lt height
  simpa using this

theorem addAccount_fields (context : FinalizationContext) (account : Address × AccountHistory) :
    (context.addAccount account).config = context.config ∧ (context.addAccount account).epoch = context.epoch := by
  unfold addAccount
  simp only
  split_ifs <;> exact ⟨rfl, rfl⟩

theorem create_fields (epoch : UInt32) (height : UInt64) (config : FinalizationConfiguration)
    (accounts : HighValueAccounts) :
    (create epoch height config accounts).config = config ∧ (create epoch height config accounts).epoch = epoch := by
  have hfold : ∀ (l : List (Address × AccountHistory)) (c : FinalizationContext),
      (l.foldl addAccount c).config = c.config ∧ (l.foldl addAccount c).epoch = c.epoch := by
    intro l
    induction l with
    | nil => exact fun c => ⟨rfl, rfl⟩
    | cons a l ih =>
      intro c
      have h := ih (c.addAccount a)
      rw [(c.addAccount_fields a).1, (c.addAccount_fields a).2] at h
      exact h
  exact hfold _ _

end FinalizationContext

inductive ProcessMessageResult where
  | failureSignature
  | failurePadding
  | failureVersion
  | failureVoter
  | success
deriving DecidableEq, Repr

/-- `ProcessMessage`: the result and the weight of the voter. -/
def processMessage (crypto : Crypto) (message : FinalizationMessage) (context : FinalizationContext) :
    ProcessMessageResult × UInt64 :=
  let weight := context.lookup message.voter
  if weight = 0 then (.failureVoter, 0)
  else if message.reserved1 ≠ 0 then (.failurePadding, 0)
  else if message.version ≠ FinalizationMessage.currentVersion then (.failureVersion, 0)
  else if !crypto.verify message.signature (stepIdentifierToBmKeyIdentifier message.stepIdentifier) message.toBuffer
  then (.failureSignature, 0)
  else (.success, weight)

structure Authentic (crypto : Crypto) (context : FinalizationContext) (message : FinalizationMessage) : Prop where
  eligible : context.isEligibleVoter message.voter = true
  padding : message.reserved1 = 0
  version : message.version = FinalizationMessage.currentVersion
  signed : crypto.verify message.signature (stepIdentifierToBmKeyIdentifier message.stepIdentifier)
    message.toBuffer = true

theorem processMessage_success_iff {crypto : Crypto} {message : FinalizationMessage} {context : FinalizationContext} :
    (processMessage crypto message context).1 = .success ↔ Authentic crypto context message := by
  unfold processMessage
  simp only
  split
  · rename_i h; exact ⟨nofun, fun h' => by simpa [FinalizationContext.isEligibleVoter, h] using h'.eligible⟩
  split
  · rename_i h; exact ⟨nofun, fun h' => absurd h'.padding h⟩
  split
  · rename_i h; exact ⟨nofun, fun h' => absurd h'.version h⟩
  split
  · rename_i h; exact ⟨nofun, fun h' => by simp [h'.signed] at h⟩
  · rename_i h1 h2 h3 h4
    exact ⟨fun _ => ⟨by simpa [FinalizationContext.isEligibleVoter] using h1, by simpa using h2, by simpa using h3,
      by simpa using h4⟩, fun _ => rfl⟩

theorem processMessage_weight {crypto : Crypto} {message : FinalizationMessage} {context : FinalizationContext}
    (h : Authentic crypto context message) :
    processMessage crypto message context = (.success, context.lookup message.voter) := by
  have h1 : context.lookup message.voter ≠ 0 := by simpa [FinalizationContext.isEligibleVoter] using h.eligible
  simp [processMessage, h1, h.padding, h.version, h.signed]

end Catapult.Finalization
