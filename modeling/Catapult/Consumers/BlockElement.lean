import Catapult.Chain.CompareChains

/-!
# Block elements (`Elements.h`, `BlockUtils.cpp`, `HeightGrouping.h`, `ChainUtils.cpp`, `BlockScorer.cpp`)

What the block consumers read of a block and its metadata. Heights and timestamps are 64-bit values, scores of chains
are checked 128-bit values.
-/

namespace Catapult.Consumers
open Chain (add64 sub64)

inductive EntityType where
  | blockNemesis
  | blockNormal
  | blockImportance
  | other (value : Nat)
  deriving DecidableEq

/-- A block header with the part of the importance block footer that links it. -/
structure Block (Hash : Type) where
  type : EntityType
  height : Nat
  timestamp : Nat
  difficulty : Nat
  previousBlockHash : Hash
  receiptsHash : Hash
  stateHash : Hash
  previousImportanceBlockHash : Hash
  deriving DecidableEq

/-- Both the processing element of a transaction and the info that is made of it, which has the same fields. -/
structure TransactionElement (Hash Transaction : Type) where
  transaction : Transaction
  entityHash : Hash
  merkleComponentHash : Hash
  deriving DecidableEq

structure BlockElement (Hash Transaction Statement : Type) where
  block : Block Hash
  entityHash : Hash
  generationHash : Hash
  subCacheMerkleRoots : List Hash
  transactions : List (TransactionElement Hash Transaction)
  optionalStatement : Option Statement
  deriving DecidableEq

inductive ConsumerFailure where
  | emptyInput
  | remoteChainImproperLink
  | remoteChainDuplicateTransactions
  | remoteChainUnlinked
  | remoteChainDifficultiesMismatch
  | remoteChainScoreNotBetter
  | remoteChainTooFarBehind
  | remoteChainTooFarInFuture
  | remoteChainImproperImportanceLink
  deriving DecidableEq

inductive ChainFailure where
  | unlinked
  | blockUnknownSigner
  | blockInvalidVrfProof
  | blockNotHit
  | blockInconsistentStateHash
  | blockInconsistentReceiptsHash
  deriving DecidableEq

inductive ResultSeverity where
  | success
  | neutral
  | failure
  deriving DecidableEq

/-- A validation result: one of those of the consumers and of the chain processor, or any other, with its severity. -/
inductive ValidationResult where
  | success
  | neutral
  | consumer (failure : ConsumerFailure)
  | chain (failure : ChainFailure)
  | other (severity : ResultSeverity) (code : Nat)
  deriving DecidableEq

def getSeverity : ValidationResult → ResultSeverity
  | .success => .success
  | .neutral => .neutral
  | .consumer _ => .failure
  | .chain _ => .failure
  | .other severity _ => severity

def isValidationResultSuccess (result : ValidationResult) : Bool := getSeverity result = .success

/-- Why a consumer stops: it aborts with a validation result, or an exception leaves it. -/
inductive Interrupt where
  | abort (result : ValidationResult)
  | exception
  deriving DecidableEq

def abortWith (failure : ConsumerFailure) : Interrupt := .abort (.consumer failure)

def isImportanceBlock (type : EntityType) : Bool := type = .blockNemesis || type = .blockImportance

def calculateBlockTypeFromHeight (height importanceGrouping : Nat) : EntityType :=
  if height = 1 then .blockNemesis
  else if height % importanceGrouping = 0 then .blockImportance
  else .blockNormal

/-- The height one grouping back (`HeightGroupingFacade::previous(1)`), with the checks of the facade's constructor. -/
def previousGroupedHeight (groupedHeight grouping : Nat) : Option Nat :=
  if grouping = 0 then none
  else if groupedHeight = 1 ∨ (groupedHeight ≠ 0 ∧ groupedHeight % grouping = 0) then
    some (if grouping < groupedHeight then groupedHeight - grouping else 1)
  else none

variable {Hash : Type}

def isChainLink [DecidableEq Hash] (parent : Block Hash) (parentHash : Hash) (child : Block Hash) : Bool :=
  if add64 parent.height 1 ≠ child.height ∨ parentHash ≠ child.previousBlockHash then false
  else parent.timestamp < child.timestamp

def calculateScore (parentBlock currentBlock : Block Hash) : Nat :=
  if currentBlock.timestamp ≤ parentBlock.timestamp then 0
  else sub64 currentBlock.difficulty ((currentBlock.timestamp - parentBlock.timestamp) / 1000)

def addScore (score other : Nat) : Option Nat := if score + other < 2 ^ 128 then some (score + other) else none

def addScores (parent : Block Hash) : List (Block Hash) → Nat → Option Nat
  | [], score => some score
  | block :: blocks, score => do addScores block blocks (← addScore score (calculateScore parent block))

def calculatePartialChainScore (parent : Block Hash) (blocks : List (Block Hash)) : Option Nat :=
  addScores parent blocks 0

def subScore (score other : Nat) : Option Int :=
  let result : Int := score - other
  if result.natAbs < 2 ^ 63 then some result else none

def scoreAfter (parent : Block Hash) : List (Block Hash) → Nat
  | [] => 0
  | block :: blocks => calculateScore parent block + scoreAfter block blocks

theorem addScore_eq_some {a b c : Nat} (h : addScore a b = some c) : c = a + b := by
  unfold addScore at h
  split at h
  · exact (Option.some.inj h).symm
  · cases h

theorem addScores_eq_some {parent : Block Hash} {blocks : List (Block Hash)} {score result : Nat}
    (h : addScores parent blocks score = some result) : result = score + scoreAfter parent blocks := by
  induction blocks generalizing parent score with
  | nil => exact (Option.some.inj h).symm
  | cons block blocks ih =>
    obtain ⟨next, hnext, hrest⟩ := Option.bind_eq_some_iff.1 h
    rw [ih hrest, addScore_eq_some hnext, scoreAfter, Nat.add_assoc]

theorem subScore_eq_some {a b : Nat} {delta : Int} (h : subScore a b = some delta) : delta = a - b := by
  unfold subScore at h
  dsimp only at h
  split at h
  · exact (Option.some.inj h).symm
  · cases h

theorem calculatePartialChainScore_eq_some {parent : Block Hash} {blocks : List (Block Hash)} {score : Nat}
    (h : calculatePartialChainScore parent blocks = some score) : score = scoreAfter parent blocks := by
  rw [addScores_eq_some h, Nat.zero_add]

theorem scoreAfter_append {parent : Block Hash} {blocks more : List (Block Hash)} :
    scoreAfter parent (blocks ++ more) = scoreAfter parent blocks + scoreAfter (blocks.getLastD parent) more := by
  induction blocks generalizing parent with
  | nil => rw [List.nil_append, List.getLastD_nil, scoreAfter, Nat.zero_add]
  | cons b blocks ih => rw [List.cons_append, scoreAfter, ih, scoreAfter, List.getLastD_cons, Nat.add_assoc]

theorem previousGroupedHeight_eq_some {height grouping previous : Nat}
    (h : previousGroupedHeight height grouping = some previous) :
    0 < grouping ∧ previous = if grouping < height then height - grouping else 1 := by
  unfold previousGroupedHeight at h
  split at h
  · cases h
  · split at h
    · exact ⟨by omega, (Option.some.inj h).symm⟩
    · cases h

end Catapult.Consumers
