import Catapult.Finalization.ProofGrouping

/-!
# The heights of an accepted prevote

A prevote is checked against the epoch through its first height and through the height of its last hash, and the
latter is a 64-bit sum of two fields of the message. An accepted prevote stays inside its epoch if and only if this
sum does not wrap. A voter whose sum wraps past zero names heights far above the epoch and is accepted.
-/

namespace Catapult.Finalization

namespace FinalizationMessage
variable {message : FinalizationMessage} {votingSetGrouping epochMinHeight epochMaxHeight : UInt64}

/-- Every height that the hash chain names is in the epoch, from the last height of the previous epoch on. -/
def InEpoch (message : FinalizationMessage) (votingSetGrouping : UInt64) : Prop :=
  ∃ epochMinHeight epochMaxHeight,
    calculateVotingSetEndHeight (message.stepIdentifier.epoch - 1) votingSetGrouping = some epochMinHeight ∧
    calculateVotingSetEndHeight message.stepIdentifier.epoch votingSetGrouping = some epochMaxHeight ∧
    ∀ i < message.hashes.length, epochMinHeight.toNat ≤ message.height.toNat + i ∧
      message.height.toNat + i ≤ epochMaxHeight.toNat

theorem hasValidHashes_iff (hprevote : message.isPrevote = true)
    (hmin : calculateVotingSetEndHeight (message.stepIdentifier.epoch - 1) votingSetGrouping = some epochMinHeight)
    (hmax : calculateVotingSetEndHeight message.stepIdentifier.epoch votingSetGrouping = some epochMaxHeight) :
    message.hasValidHashes votingSetGrouping = some true ↔
      epochMinHeight ≤ message.height ∧ message.lastHashHeight ≤ epochMaxHeight := by
  simp only [hasValidHashes, if_pos hprevote, hmin, hmax, Option.bind_eq_bind, Option.bind_some, Option.pure_def,
    Option.some.injEq, Bool.not_eq_true', Bool.or_eq_false_iff, decide_eq_false_iff_not, UInt64.not_lt]

theorem exists_epochHeights (hprevote : message.isPrevote = true)
    (h : message.hasValidHashes votingSetGrouping = some true) : ∃ epochMinHeight epochMaxHeight,
    calculateVotingSetEndHeight (message.stepIdentifier.epoch - 1) votingSetGrouping = some epochMinHeight ∧
      calculateVotingSetEndHeight message.stepIdentifier.epoch votingSetGrouping = some epochMaxHeight := by
  rw [hasValidHashes, if_pos hprevote] at h
  obtain ⟨epochMinHeight, hmin, h⟩ := Option.bind_eq_some_iff.1 h
  obtain ⟨epochMaxHeight, hmax, -⟩ := Option.bind_eq_some_iff.1 h
  exact ⟨epochMinHeight, epochMaxHeight, hmin, hmax⟩

theorem toNat_lastHashHeight (h : message.height.toNat + (message.hashes.length - 1) < 2 ^ 64) :
    message.lastHashHeight.toNat = message.height.toNat + (message.hashes.length - 1) := by
  have hlen := message.hashesCount_lt
  rw [lastHashHeight, UInt64.toNat_add, UInt64.toNat_ofNat',
    Nat.mod_eq_of_lt (a := message.hashes.length - 1) (by omega),
    Nat.mod_eq_of_lt h]

end FinalizationMessage

namespace RoundMessageAggregator
variable {crypto : Crypto} {agg : RoundMessageAggregator} {message : FinalizationMessage}

theorem valid_of_successPrevote (h : (agg.add crypto message).1 = some .successPrevote) :
    Valid crypto agg.finalizationContext message ∧ message.isPrevote = true := by
  rcases add_cases crypto agg message with ⟨-, hfail⟩ | ⟨hvalid, hnew⟩
  · rw [h] at hfail
    cases hfail
  · refine ⟨hvalid, ?_⟩
    rw [add_of_valid hvalid hnew] at h
    by_contra hne
    rw [if_neg hne] at h
    cases h

/-- An accepted prevote stays inside its epoch if and only if the height of its last hash fits in 64 bits. -/
theorem prevote_in_epoch_iff (crypto : Crypto) (agg : RoundMessageAggregator) (message : FinalizationMessage)
    (h : (agg.add crypto message).1 = some .successPrevote) :
    message.InEpoch agg.finalizationContext.config.votingSetGrouping ↔
      message.height.toNat + (message.hashes.length - 1) < 2 ^ 64 := by
  obtain ⟨hvalid, hprevote⟩ := valid_of_successPrevote h
  have hpos : 0 < message.hashes.length := List.length_pos_iff.2 hvalid.hashes_ne
  constructor
  · rintro ⟨epochMinHeight, epochMaxHeight, -, -, hrange⟩
    have hlast := (hrange (message.hashes.length - 1) (by omega)).2
    exact Nat.lt_of_le_of_lt hlast epochMaxHeight.toNat_lt
  · intro hfits
    obtain ⟨epochMinHeight, epochMaxHeight, hmin, hmax⟩ :=
      FinalizationMessage.exists_epochHeights hprevote hvalid.hashes
    obtain ⟨hlow, hhigh⟩ := (FinalizationMessage.hasValidHashes_iff hprevote hmin hmax).1 hvalid.hashes
    rw [UInt64.le_iff_toNat_le] at hlow
    rw [UInt64.le_iff_toNat_le, FinalizationMessage.toNat_lastHashHeight hfits] at hhigh
    exact ⟨epochMinHeight, epochMaxHeight, hmin, hmax, fun i hi => ⟨by omega, by omega⟩⟩

def secondEpoch : RoundMessageAggregator :=
  create (FinalizationContext.create 2 1 defaultConfig (twoVoters 3000 7000 (by decide)))

/-- The prevote for height 10 is accepted and stays between the heights 1 and 78. -/
theorem prevote_in_epoch_sample : (sampleMessage 1 0).InEpoch 78 :=
  (prevote_in_epoch_iff sampleCrypto secondEpoch (sampleMessage 1 0) (by decide +kernel)).2 (by decide)

def wrappingMessage : FinalizationMessage :=
  { sampleMessage 1 0 with height := 2 ^ 64 - 1, hashes := [7, 8, 9], hashesCount_lt := by decide }

theorem prevote_wraps : ¬ ∀ (crypto : Crypto) (agg : RoundMessageAggregator) (message : FinalizationMessage),
    (agg.add crypto message).1 = some .successPrevote →
    message.InEpoch agg.finalizationContext.config.votingSetGrouping := by
  intro h
  have hin := h sampleCrypto secondEpoch wrappingMessage (by decide +kernel)
  obtain ⟨_, epochMaxHeight, -, -, hrange⟩ := hin
  have hlast := (hrange 2 (by decide)).2
  have hlt := epochMaxHeight.toNat_lt
  have hheight : wrappingMessage.height.toNat = 2 ^ 64 - 1 := by decide +kernel
  omega

end RoundMessageAggregator
/-!
## Prevotes of the own voter (`FinalizationMessageFactory`)

`createPrevote` names the blocks from the last finalized height on. The number of hashes is the result of
three clamps on unsigned heights: to the last multiple of `PrevoteBlocksMultiple` that is deep enough in
the chain and not beyond the epoch, and then by whole multiples to `MaxHashesPerPoint`.

The prevote starts at the finalized height whatever the epoch is. When this height is inside the epoch of
the round, every check of `add` that does not depend on the voter passes (`createPrevote_acceptable`).
-/

structure BlockStorageView where
  chainHeight : UInt64
  hashAt : UInt64 → Hash256

namespace BlockStorageView

/-- At most `maxHashes` hashes from `height` on, as far as there are blocks. -/
def loadHashesFrom (view : BlockStorageView) (height maxHashes : UInt64) : List Hash256 :=
  if height = 0 ∨ view.chainHeight < height then []
  else
    let numAvailableHashes := view.chainHeight - height + 1
    let numHashes := if numAvailableHashes < maxHashes then numAvailableHashes else maxHashes
    (List.range numHashes.toNat).map fun i => view.hashAt (height + UInt64.ofNat i)

end BlockStorageView

/-- `PrevoteChainDescriptor`, which is passed on with the view when a prevote is created. -/
structure PrevoteChainDescriptor where
  round : FinalizationRound
  height : UInt64
  hashesCount : Nat

/-- What a message factory reads: its settings, the storages and the voting keys. -/
structure FinalizationMessageFactory where
  config : FinalizationConfiguration
  prevoteBlocksMultiple : UInt16
  blockStorage : BlockStorageView
  finalizationStatistics : FinalizationStatistics
  /-- `sign` of the voting key tree; `none` when it cannot sign for the key identifier. -/
  sign : UInt64 → VerifiableData → Option BmTreeSignature

namespace FinalizationMessageFactory
variable {factory : FinalizationMessageFactory} {round : FinalizationRound} {multiple : UInt16}

/-- `Clamp`: to a multiple, below the value for the adjustment 0 and above it for 1. -/
def clamp (value : UInt64) (multiple adjustment : UInt16) : UInt64 :=
  if value % multiple.toUInt64 = 0 then value
  else (value / multiple.toUInt64 + adjustment.toUInt64) * multiple.toUInt64

def clampedChainHeight (factory : FinalizationMessageFactory) (maxVotingSetHeight : UInt64) : UInt64 :=
  let chainHeight := factory.blockStorage.chainHeight
  let multiple := factory.prevoteBlocksMultiple.toUInt64
  let maxPrevoteHashHeight := if multiple ≤ chainHeight then chainHeight - multiple else chainHeight
  clamp (if maxVotingSetHeight < maxPrevoteHashHeight then maxVotingSetHeight else maxPrevoteHashHeight)
    factory.prevoteBlocksMultiple 0

def numHashesTo (clampedChainHeight startHeight : UInt64) : UInt64 :=
  if startHeight < clampedChainHeight then clampedChainHeight - startHeight + 1 else 1

def excessHashes (factory : FinalizationMessageFactory) (numHashes : UInt64) : UInt64 :=
  let maxHashesPerPoint := factory.config.maxHashesPerPoint.toUInt64
  if maxHashesPerPoint < numHashes then clamp (numHashes - maxHashesPerPoint) factory.prevoteBlocksMultiple 1 else 0

/-- `loadPrevoteHashChain`; `none` when the epoch or the grouping is not supported. -/
def loadPrevoteHashChain (factory : FinalizationMessageFactory) (round : FinalizationRound) (startHeight : UInt64) :
    Option (List Hash256 × PrevoteChainDescriptor) := do
  let maxVotingSetHeight ← calculateVotingSetEndHeight round.epoch factory.config.votingSetGrouping
  let numHashes := numHashesTo (factory.clampedChainHeight maxVotingSetHeight) startHeight
  let hashes := factory.blockStorage.loadHashesFrom startHeight (numHashes - factory.excessHashes numHashes)
  return (hashes, ⟨round, startHeight, hashes.length⟩)

/-- `model::PrepareMessage`; `none` when the message cannot be signed. -/
def prepareMessage (factory : FinalizationMessageFactory) (stepIdentifier : StepIdentifier) (height : UInt64)
    (hashes : List Hash256) (hcount : hashes.length < 2 ^ 32) : Option FinalizationMessage :=
  (factory.sign (stepIdentifierToBmKeyIdentifier stepIdentifier)
    ⟨FinalizationMessage.currentVersion, stepIdentifier, height, hashes⟩).map fun signature =>
      { reserved1 := 0
        signature := signature
        version := FinalizationMessage.currentVersion
        stepIdentifier := stepIdentifier
        height := height
        hashes := hashes
        hashesCount_lt := hcount }

/-- The hashes of a prevote: the finalized hash alone when the storage does not reach it. -/
def prevoteHashes (factory : FinalizationMessageFactory) (hashes : List Hash256) : List Hash256 :=
  if hashes.isEmpty then [factory.finalizationStatistics.hash] else hashes

/-- `createPrevote`: the message, if it can be signed, and the descriptor that is passed on. It is `none` when an
exception is thrown, and when the hashes are more than the 32-bit count of a message can say. -/
def createPrevote (factory : FinalizationMessageFactory) (round : FinalizationRound) :
    Option (Option FinalizationMessage × PrevoteChainDescriptor) := do
  let height := factory.finalizationStatistics.height
  let (hashes, descriptor) ← factory.loadPrevoteHashChain round height
  if hcount : (factory.prevoteHashes hashes).length < 2 ^ 32 then
    let stepIdentifier := StepIdentifier.make round.epoch round.point 0
    return (factory.prepareMessage stepIdentifier height (factory.prevoteHashes hashes) hcount, descriptor)
  else none

theorem clamp_zero_spec (value : UInt64) (multiple : UInt16) :
    (clamp value multiple 0).toNat ≤ value.toNat ∧ multiple.toNat ∣ (clamp value multiple 0).toNat := by
  have hmod : (value % multiple.toUInt64).toNat = value.toNat % multiple.toNat := by
    rw [UInt64.toNat_mod, UInt16.toNat_toUInt64]
  have hle := Nat.div_mul_le_self value.toNat multiple.toNat
  have hlt := value.toNat_lt
  unfold clamp
  split
  · rename_i h
    rw [h, UInt64.toNat_zero] at hmod
    exact ⟨Nat.le_refl _, Nat.dvd_of_mod_eq_zero hmod.symm⟩
  · have hprod : ((value / multiple.toUInt64 + UInt16.toUInt64 0) * multiple.toUInt64).toNat =
        value.toNat / multiple.toNat * multiple.toNat := by
      rw [show UInt16.toUInt64 0 = 0 from rfl, UInt64.add_zero, UInt64.toNat_mul, UInt64.toNat_div,
        UInt16.toNat_toUInt64, Nat.mod_eq_of_lt (by omega)]
    rw [hprod]
    exact ⟨hle, Nat.dvd_mul_left ..⟩

theorem clamp_one_spec {value : UInt64} (hm : 0 < multiple.toNat) (hfits : value.toNat + multiple.toNat < 2 ^ 64) :
    value.toNat ≤ (clamp value multiple 1).toNat ∧ (clamp value multiple 1).toNat < value.toNat + multiple.toNat ∧
      multiple.toNat ∣ (clamp value multiple 1).toNat := by
  have hmod : (value % multiple.toUInt64).toNat = value.toNat % multiple.toNat := by
    rw [UInt64.toNat_mod, UInt16.toNat_toUInt64]
  have hdiv := Nat.div_add_mod' value.toNat multiple.toNat
  have hrem := Nat.mod_lt value.toNat hm
  unfold clamp
  split
  · rename_i h
    rw [h, UInt64.toNat_zero] at hmod
    exact ⟨Nat.le_refl _, by omega, Nat.dvd_of_mod_eq_zero hmod.symm⟩
  · rename_i h
    have hne : value.toNat % multiple.toNat ≠ 0 := fun hzero => h (UInt64.toNat_inj.1 (by rw [hmod, hzero]; rfl))
    have hone : (UInt16.toUInt64 1).toNat = 1 := rfl
    have hexpand := Nat.add_one_mul (value.toNat / multiple.toNat) multiple.toNat
    have hquotient := Nat.div_le_self value.toNat multiple.toNat
    have hprod : ((value / multiple.toUInt64 + UInt16.toUInt64 1) * multiple.toUInt64).toNat =
        (value.toNat / multiple.toNat + 1) * multiple.toNat := by
      rw [UInt64.toNat_mul, UInt64.toNat_add, hone, UInt64.toNat_div, UInt16.toNat_toUInt64,
        Nat.mod_eq_of_lt (a := value.toNat / multiple.toNat + 1) (by omega), Nat.mod_eq_of_lt (by omega)]
    rw [hprod]
    exact ⟨by omega, by omega, Nat.dvd_mul_left ..⟩

theorem clampedChainHeight_spec (factory : FinalizationMessageFactory) (maxVotingSetHeight : UInt64)
    (hm : 0 < factory.prevoteBlocksMultiple.toNat) :
    (factory.clampedChainHeight maxVotingSetHeight).toNat ≤ factory.blockStorage.chainHeight.toNat ∧
      (factory.clampedChainHeight maxVotingSetHeight).toNat ≤ maxVotingSetHeight.toNat ∧
      factory.prevoteBlocksMultiple.toNat ∣ (factory.clampedChainHeight maxVotingSetHeight).toNat ∧
      (factory.clampedChainHeight maxVotingSetHeight).toNat + 1 < 2 ^ 64 := by
  have hlt := factory.blockStorage.chainHeight.toNat_lt
  have hbound : factory.prevoteBlocksMultiple.toNat < 2 ^ 16 := factory.prevoteBlocksMultiple.toNat_lt
  unfold clampedChainHeight
  simp only
  generalize hdeep : (if factory.prevoteBlocksMultiple.toUInt64 ≤ factory.blockStorage.chainHeight
    then factory.blockStorage.chainHeight - factory.prevoteBlocksMultiple.toUInt64
    else factory.blockStorage.chainHeight) = maxPrevoteHashHeight
  have hdeep' : maxPrevoteHashHeight.toNat ≤ factory.blockStorage.chainHeight.toNat ∧
      maxPrevoteHashHeight.toNat + 1 < 2 ^ 64 := by
    rw [← hdeep]
    split
    · rename_i hle
      rw [UInt64.toNat_sub_of_le _ _ hle, UInt16.toNat_toUInt64]
      omega
    · rename_i hlt'
      rw [UInt64.not_le, UInt64.lt_iff_toNat_lt, UInt16.toNat_toUInt64] at hlt'
      omega
  have hmin : (if maxVotingSetHeight < maxPrevoteHashHeight then maxVotingSetHeight else maxPrevoteHashHeight).toNat ≤
      min maxVotingSetHeight.toNat maxPrevoteHashHeight.toNat := by
    split
    · rename_i h
      rw [UInt64.lt_iff_toNat_lt] at h
      omega
    · rename_i h
      rw [UInt64.not_lt, UInt64.le_iff_toNat_le] at h
      omega
  obtain ⟨hle, hdvd⟩ := clamp_zero_spec
    (if maxVotingSetHeight < maxPrevoteHashHeight then maxVotingSetHeight else maxPrevoteHashHeight)
    factory.prevoteBlocksMultiple
  exact ⟨by omega, by omega, hdvd, by omega⟩

theorem numHashesTo_spec {clamped startHeight : UInt64} (hfits : clamped.toNat + 1 < 2 ^ 64) :
    (startHeight.toNat < clamped.toNat ∧
      (numHashesTo clamped startHeight).toNat = clamped.toNat - startHeight.toNat + 1) ∨
    (clamped.toNat ≤ startHeight.toNat ∧ numHashesTo clamped startHeight = 1) := by
  unfold numHashesTo
  split
  · rename_i h
    have hlt := UInt64.lt_iff_toNat_lt.1 h
    left
    refine ⟨hlt, ?_⟩
    rw [UInt64.toNat_add, UInt64.toNat_sub_of_le _ _ (UInt64.le_of_lt h), UInt64.toNat_one,
      Nat.mod_eq_of_lt (by omega)]
  · rename_i h
    exact .inr ⟨UInt64.le_iff_toNat_le.1 (UInt64.not_lt.1 h), rfl⟩

theorem excessHashes_spec {numHashes : UInt64} (hm : 0 < factory.prevoteBlocksMultiple.toNat)
    (hle : factory.prevoteBlocksMultiple.toNat ≤ factory.config.maxHashesPerPoint.toNat) (hpos : 0 < numHashes.toNat) :
    (factory.excessHashes numHashes).toNat < numHashes.toNat ∧
      factory.prevoteBlocksMultiple.toNat ∣ (factory.excessHashes numHashes).toNat ∧
      numHashes.toNat ≤ factory.config.maxHashesPerPoint.toNat + (factory.excessHashes numHashes).toNat := by
  have hlt := numHashes.toNat_lt
  unfold excessHashes
  simp only
  split
  · rename_i h
    have h' := UInt64.lt_iff_toNat_lt.1 h
    rw [UInt32.toNat_toUInt64] at h'
    have hsub : (numHashes - factory.config.maxHashesPerPoint.toUInt64).toNat =
        numHashes.toNat - factory.config.maxHashesPerPoint.toNat := by
      rw [UInt64.toNat_sub_of_le _ _ (UInt64.le_of_lt h), UInt32.toNat_toUInt64]
    have hfits : (numHashes - factory.config.maxHashesPerPoint.toUInt64).toNat +
        factory.prevoteBlocksMultiple.toNat < 2 ^ 64 := by omega
    obtain ⟨hge, hlt', hdvd⟩ := clamp_one_spec hm hfits
    exact ⟨by omega, hdvd, by omega⟩
  · rename_i h
    have h' := UInt64.le_iff_toNat_le.1 (UInt64.not_lt.1 h)
    rw [UInt32.toNat_toUInt64] at h'
    exact ⟨hpos, Nat.dvd_zero _, by simpa using h'⟩

theorem length_loadHashesFrom (view : BlockStorageView) {height : UInt64} (maxHashes : UInt64) (hpos : height ≠ 0)
    (hle : height ≤ view.chainHeight) : (view.loadHashesFrom height maxHashes).length =
      min maxHashes.toNat (view.chainHeight.toNat - height.toNat + 1) := by
  have hne : height.toNat ≠ 0 := fun hzero => hpos (UInt64.toNat_inj.1 hzero)
  have hlt := view.chainHeight.toNat_lt
  have hnot : ¬ (height = 0 ∨ view.chainHeight < height) := fun h => h.elim hpos (UInt64.not_lt.2 hle)
  have hle' := UInt64.le_iff_toNat_le.1 hle
  have havailable : (view.chainHeight - height + 1).toNat = view.chainHeight.toNat - height.toNat + 1 := by
    rw [UInt64.toNat_add, UInt64.toNat_sub_of_le _ _ hle, UInt64.toNat_one, Nat.mod_eq_of_lt (by omega)]
  unfold BlockStorageView.loadHashesFrom
  rw [if_neg hnot]
  simp only [List.length_map, List.length_range]
  split
  · rename_i h
    rw [UInt64.lt_iff_toNat_lt, havailable] at h
    omega
  · rename_i h
    rw [UInt64.not_lt, UInt64.le_iff_toNat_le, havailable] at h
    omega

theorem loadPrevoteHashChain_spec {startHeight epochMaxHeight : UInt64}
    (hm : 0 < factory.prevoteBlocksMultiple.toNat)
    (hle : factory.prevoteBlocksMultiple.toNat ≤ factory.config.maxHashesPerPoint.toNat)
    (hmax : calculateVotingSetEndHeight round.epoch factory.config.votingSetGrouping = some epochMaxHeight) :
    ∃ hashes, factory.loadPrevoteHashChain round startHeight = some (hashes, ⟨round, startHeight, hashes.length⟩) ∧
      (factory.prevoteHashes hashes).length ≤ factory.config.maxHashesPerPoint.toNat ∧
      ((factory.prevoteHashes hashes).length = 1 ∨
        startHeight.toNat + ((factory.prevoteHashes hashes).length - 1) ≤ epochMaxHeight.toNat ∧
        0 < (factory.prevoteHashes hashes).length ∧
        factory.prevoteBlocksMultiple.toNat ∣ startHeight.toNat + ((factory.prevoteHashes hashes).length - 1)) := by
  obtain ⟨hchain, hepoch, hdvd, hfits⟩ := factory.clampedChainHeight_spec epochMaxHeight hm
  generalize hclamped : factory.clampedChainHeight epochMaxHeight = clamped at hchain hepoch hdvd hfits
  have hnum := @numHashesTo_spec clamped startHeight hfits
  have hpos : 0 < (numHashesTo clamped startHeight).toNat := by
    rcases hnum with ⟨-, hn⟩ | ⟨-, hn⟩
    · omega
    · rw [hn]; decide
  obtain ⟨hexcess, hexcessdvd, hcountle⟩ := excessHashes_spec hm hle hpos
  have hcount : (numHashesTo clamped startHeight - factory.excessHashes (numHashesTo clamped startHeight)).toNat =
      (numHashesTo clamped startHeight).toNat - (factory.excessHashes (numHashesTo clamped startHeight)).toNat :=
    UInt64.toNat_sub_of_le _ _ (UInt64.le_iff_toNat_le.2 (Nat.le_of_lt hexcess))
  refine ⟨factory.blockStorage.loadHashesFrom startHeight
    (numHashesTo clamped startHeight - factory.excessHashes (numHashesTo clamped startHeight)), ?_, ?_⟩
  · simp only [loadPrevoteHashChain, hmax, Option.bind_eq_bind, Option.bind_some, hclamped]
    rfl
  by_cases hstored : startHeight = 0 ∨ factory.blockStorage.chainHeight < startHeight
  · have hnil : factory.blockStorage.loadHashesFrom startHeight
        (numHashesTo clamped startHeight - factory.excessHashes (numHashesTo clamped startHeight)) = [] := by
      rw [BlockStorageView.loadHashesFrom, if_pos hstored]
    rw [hnil]
    exact ⟨Nat.le_trans hm hle, .inl rfl⟩
  · obtain ⟨hne, hnotbeyond⟩ := not_or.1 hstored
    have hstart := UInt64.not_lt.1 hnotbeyond
    have hlength := length_loadHashesFrom factory.blockStorage
      (numHashesTo clamped startHeight - factory.excessHashes (numHashesTo clamped startHeight)) hne hstart
    rw [UInt64.le_iff_toNat_le] at hstart
    -- the chain is long enough for all the hashes
    have hlength' : (factory.blockStorage.loadHashesFrom startHeight
        (numHashesTo clamped startHeight - factory.excessHashes (numHashesTo clamped startHeight))).length =
        (numHashesTo clamped startHeight).toNat - (factory.excessHashes (numHashesTo clamped startHeight)).toNat := by
      rw [hlength, hcount]
      have hone : (1 : UInt64).toNat = 1 := rfl
      rcases hnum with ⟨hlt, hn⟩ | ⟨-, hn⟩
      · omega
      · rw [hn, hone] at hexcess ⊢
        omega
    have hsame : factory.prevoteHashes (factory.blockStorage.loadHashesFrom startHeight
        (numHashesTo clamped startHeight - factory.excessHashes (numHashesTo clamped startHeight))) =
        factory.blockStorage.loadHashesFrom startHeight
          (numHashesTo clamped startHeight - factory.excessHashes (numHashesTo clamped startHeight)) := by
      rw [prevoteHashes, if_neg]
      rw [List.isEmpty_iff_length_eq_zero, hlength']
      omega
    rw [hsame, hlength']
    refine ⟨by omega, ?_⟩
    rcases hnum with ⟨hlt, hn⟩ | ⟨-, hn⟩
    · right
      have hend : startHeight.toNat + ((numHashesTo clamped startHeight).toNat -
          (factory.excessHashes (numHashesTo clamped startHeight)).toNat - 1) =
          clamped.toNat - (factory.excessHashes (numHashesTo clamped startHeight)).toNat := by
        omega
      rw [hend]
      exact ⟨by omega, by omega, Nat.dvd_sub hdvd hexcessdvd⟩
    · left
      have hone : (1 : UInt64).toNat = 1 := rfl
      rw [hn, hone] at hexcess ⊢
      omega

/-- The checks of `add` for an epoch that do not depend on the voter and the messages before. -/
def PassesHeightChecks (crypto : Crypto) (agg : RoundMessageAggregator) (message : FinalizationMessage) : Prop :=
  (agg.add crypto message).1 ≠ none ∧ (agg.add crypto message).1 ≠ some .failureInvalidHashes ∧
    (agg.add crypto message).1 ≠ some .failureInvalidHeight

structure Clamped (factory : FinalizationMessageFactory) (epochMaxHeight : UInt64) (message : FinalizationMessage) :
    Prop where
  isPrevote : message.isPrevote = true
  hashes_pos : 1 ≤ message.hashes.length
  hashes_le : message.hashes.length ≤ factory.config.maxHashesPerPoint.toNat
  height_eq : message.height = factory.finalizationStatistics.height
  end_dvd : 1 < message.hashes.length →
    factory.prevoteBlocksMultiple.toNat ∣ message.height.toNat + (message.hashes.length - 1)
  end_le : 1 < message.hashes.length → message.height.toNat + (message.hashes.length - 1) ≤ epochMaxHeight.toNat

/-- A prevote for the heights of an epoch that the round aggregators of the epoch do not refuse. -/
structure Acceptable (factory : FinalizationMessageFactory) (epochMinHeight epochMaxHeight : UInt64)
    (message : FinalizationMessage) : Prop where
  end_le : message.height.toNat + (message.hashes.length - 1) ≤ epochMaxHeight.toNat
  passes : ∀ (crypto : Crypto) (agg : RoundMessageAggregator), agg.finalizationContext.config = factory.config →
    agg.finalizationContext.height = epochMinHeight → PassesHeightChecks crypto agg message

theorem passesHeightChecks (crypto : Crypto) {agg : RoundMessageAggregator} {message : FinalizationMessage}
    (hne : message.hashes ≠ []) (hle : message.hashes.length ≤ agg.finalizationContext.config.maxHashesPerPoint.toNat)
    (hheight : agg.finalizationContext.height ≤ message.lastHashHeight)
    (hvalid : message.hasValidHashes agg.finalizationContext.config.votingSetGrouping = some true) :
    PassesHeightChecks crypto agg message := by
  have h1 : ¬ (message.hashes.length = 0 ∨
      agg.finalizationContext.config.maxHashesPerPoint.toNat < message.hashes.length) := by
    have := List.length_pos_iff.2 hne
    omega
  have h2 : ¬ message.lastHashHeight < agg.finalizationContext.height := UInt64.not_lt.2 hheight
  unfold PassesHeightChecks RoundMessageAggregator.add
  simp only [if_neg h1, if_neg h2, hvalid]
  split
  · split <;> exact ⟨nofun, nofun, nofun⟩
  · split
    · split <;> exact ⟨nofun, nofun, nofun⟩
    · exact ⟨nofun, nofun, nofun⟩

theorem add_of_low_height (crypto : Crypto) {agg : RoundMessageAggregator} {message : FinalizationMessage}
    (hcount : ¬ (message.hashes.length = 0 ∨
      agg.finalizationContext.config.maxHashesPerPoint.toNat < message.hashes.length))
    (hlow : message.lastHashHeight < agg.finalizationContext.height) :
    agg.add crypto message = (some .failureInvalidHeight, agg) := by
  unfold RoundMessageAggregator.add
  simp only [if_neg hcount, if_pos hlow]

theorem Clamped.acceptable {message : FinalizationMessage} {epochMinHeight epochMaxHeight : UInt64}
    (h : Clamped factory epochMaxHeight message)
    (hmin : calculateVotingSetEndHeight (message.stepIdentifier.epoch - 1) factory.config.votingSetGrouping =
      some epochMinHeight)
    (hmax : calculateVotingSetEndHeight message.stepIdentifier.epoch factory.config.votingSetGrouping =
      some epochMaxHeight)
    (hlow : epochMinHeight ≤ factory.finalizationStatistics.height)
    (hhigh : factory.finalizationStatistics.height ≤ epochMaxHeight) :
    Acceptable factory epochMinHeight epochMaxHeight message := by
  have hpos := h.hashes_pos
  have hend : message.height.toNat + (message.hashes.length - 1) ≤ epochMaxHeight.toNat := by
    rw [← h.height_eq, UInt64.le_iff_toNat_le] at hhigh
    rcases Nat.lt_or_ge 1 message.hashes.length with hlt | hone
    · exact h.end_le hlt
    · omega
  have hlast := FinalizationMessage.toNat_lastHashHeight (Nat.lt_of_le_of_lt hend epochMaxHeight.toNat_lt)
  rw [← h.height_eq, UInt64.le_iff_toNat_le] at hlow
  refine ⟨hend, fun crypto agg hconfig hheight => passesHeightChecks crypto ?_ ?_ ?_ ?_⟩
  · exact List.length_pos_iff.1 hpos
  · rw [hconfig]
    exact h.hashes_le
  · rw [hheight, UInt64.le_iff_toNat_le, hlast]
    exact Nat.le_trans hlow (Nat.le_add_right _ _)
  · rw [hconfig, FinalizationMessage.hasValidHashes_iff h.isPrevote hmin hmax, UInt64.le_iff_toNat_le,
      UInt64.le_iff_toNat_le, hlast]
    exact ⟨hlow, hend⟩

/-- The prevote of every round is clamped without a subtraction that wraps, and acceptable when the finalized height
is inside the epoch. -/
theorem createPrevote_acceptable (factory : FinalizationMessageFactory) (round : FinalizationRound)
    (epochMaxHeight : UInt64) (hm : 0 < factory.prevoteBlocksMultiple.toNat)
    (hle : factory.prevoteBlocksMultiple.toNat ≤ factory.config.maxHashesPerPoint.toNat)
    (hmax : calculateVotingSetEndHeight round.epoch factory.config.votingSetGrouping = some epochMaxHeight) :
    (∀ numHashes : UInt64, 0 < numHashes.toNat → factory.excessHashes numHashes < numHashes) ∧
      ∃ message descriptor, factory.createPrevote round = some (message, descriptor) ∧
        ∀ m ∈ message, Clamped factory epochMaxHeight m ∧ ∀ epochMinHeight,
          calculateVotingSetEndHeight (round.epoch - 1) factory.config.votingSetGrouping = some epochMinHeight →
          epochMinHeight ≤ factory.finalizationStatistics.height →
          factory.finalizationStatistics.height ≤ epochMaxHeight →
          Acceptable factory epochMinHeight epochMaxHeight m := by
  refine ⟨fun numHashes hpos => UInt64.lt_iff_toNat_lt.2 (excessHashes_spec hm hle hpos).1, ?_⟩
  obtain ⟨hashes, hload, hlengthle, hends⟩ :=
    @loadPrevoteHashChain_spec _ _ factory.finalizationStatistics.height _ hm hle hmax
  have hcount : (factory.prevoteHashes hashes).length < 2 ^ 32 :=
    Nat.lt_of_le_of_lt hlengthle factory.config.maxHashesPerPoint.toNat_lt
  refine ⟨factory.prepareMessage (.make round.epoch round.point 0) factory.finalizationStatistics.height
    (factory.prevoteHashes hashes) hcount, ⟨round, factory.finalizationStatistics.height, hashes.length⟩, ?_,
    fun m hmem => ?_⟩
  · simp only [createPrevote, hload, Option.bind_eq_bind, Option.bind_some, dif_pos hcount]
    rfl
  obtain ⟨signature, -, rfl⟩ := Option.map_eq_some_iff.1 hmem
  have hclamped : Clamped factory epochMaxHeight ⟨0, signature, FinalizationMessage.currentVersion,
      .make round.epoch round.point 0, factory.finalizationStatistics.height, factory.prevoteHashes hashes,
        hcount⟩ := by
    refine ⟨decide_eq_true (stage_make round.epoch round.point 0), ?_, hlengthle, rfl, fun hlt => ?_, fun hlt => ?_⟩
    · rcases hends with hone | ⟨-, hpos, -⟩
      · exact Nat.le_of_eq hone.symm
      · exact hpos
    · rcases hends with hone | ⟨-, -, hdvd⟩
      · exact absurd hone (Nat.ne_of_gt hlt)
      · exact hdvd
    · rcases hends with hone | ⟨hend, -, -⟩
      · exact absurd hone (Nat.ne_of_gt hlt)
      · exact hend
  exact ⟨hclamped, fun epochMinHeight hmin hlow hhigh => hclamped.acceptable hmin hmax hlow hhigh⟩

def sampleFactory (chainHeight finalizedHeight : UInt64) : FinalizationMessageFactory where
  config := { RoundMessageAggregator.defaultConfig with maxHashesPerPoint := 200, votingSetGrouping := 25 }
  prevoteBlocksMultiple := 5
  blockStorage := ⟨chainHeight, fun height => BitVec.ofNat 256 height.toNat⟩
  finalizationStatistics := ⟨⟨1, 1⟩, finalizedHeight, BitVec.ofNat 256 finalizedHeight.toNat⟩
  sign _ _ := some ⟨⟨1, 1⟩, ⟨1, 1⟩⟩

/-- The finalized height 100 is the first height of epoch 6. -/
theorem createPrevote_acceptable_sample : ∃ message descriptor,
    (sampleFactory 115 100).createPrevote ⟨6, 1⟩ = some (message, descriptor) ∧
      ∀ m ∈ message, Clamped (sampleFactory 115 100) 125 m ∧ Acceptable (sampleFactory 115 100) 100 125 m := by
  obtain ⟨-, message, descriptor, hcreate, hmessage⟩ :=
    createPrevote_acceptable (sampleFactory 115 100) ⟨6, 1⟩ 125 (by decide) (by decide) (by decide)
  exact ⟨message, descriptor, hcreate, fun m hm =>
    ⟨(hmessage m hm).1, (hmessage m hm).2 100 (by decide) (by decide) (by decide)⟩⟩

/-- With the finalized height 1 the prevote for epoch 6 names the heights 1 to 5, which are below the epoch. -/
theorem createPrevote_below_epoch : ¬ ∀ (factory : FinalizationMessageFactory) (round : FinalizationRound)
    (epochMinHeight epochMaxHeight : UInt64), 0 < factory.prevoteBlocksMultiple.toNat →
    factory.prevoteBlocksMultiple.toNat ≤ factory.config.maxHashesPerPoint.toNat →
    calculateVotingSetEndHeight (round.epoch - 1) factory.config.votingSetGrouping = some epochMinHeight →
    calculateVotingSetEndHeight round.epoch factory.config.votingSetGrouping = some epochMaxHeight →
    factory.finalizationStatistics.height ≤ factory.blockStorage.chainHeight →
    factory.finalizationStatistics.hash =
      factory.blockStorage.hashAt factory.finalizationStatistics.height →
    ∀ message descriptor, factory.createPrevote round = some (some message, descriptor) →
      Clamped factory epochMaxHeight message ∧ Acceptable factory epochMinHeight epochMaxHeight message := by
  intro h
  have hsome : ∃ message descriptor, (sampleFactory 10 1).createPrevote ⟨6, 1⟩ = some (some message, descriptor) ∧
      message.lastHashHeight = 5 ∧ message.hashes.length = 5 := by
    refine ⟨_, _, rfl, ?_, ?_⟩ <;> decide +kernel
  obtain ⟨message, descriptor, hcreate, hlast, hlength⟩ := hsome
  obtain ⟨-, hacceptable⟩ := h (sampleFactory 10 1) ⟨6, 1⟩ 100 125 (by decide) (by decide) (by decide) (by decide)
    (by decide) rfl message descriptor hcreate
  have hpasses := hacceptable.passes RoundMessageAggregator.sampleCrypto
    (RoundMessageAggregator.create ⟨6, 100, (sampleFactory 10 1).config, 0, ∅⟩) rfl rfl
  refine hpasses.2.2 ?_
  rw [add_of_low_height _ (by rw [hlength]; decide) (by rw [hlast]; decide)]

end FinalizationMessageFactory
end Catapult.Finalization
