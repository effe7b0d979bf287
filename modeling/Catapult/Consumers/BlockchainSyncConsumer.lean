import Catapult.Consumers.BlockElement
import Catapult.Lib.Stateful

/-!
# `DefaultBlockchainProcessor`

The processor validates and executes blocks one after the other on the cache delta. It completes the metadata of an
element (generation hash, sub cache merkle roots, statement) and leaves its block, its hash and its transactions alone.
-/

namespace Catapult.Consumers

variable {Hash Transaction Statement Delta : Type}

/-- What the processor is built from: the check of the generation hash (known signer, vrf proof and hit), the processor
of the entities of a block, which builds the statement, and the hashes. -/
structure BlockchainProcessor (Hash Transaction Statement Delta : Type) where
  checkGenerationHash :
    BlockElement Hash Transaction Statement → Block Hash → Hash → Delta → Except ValidationResult Hash
  batchEntityProcessor : BlockElement Hash Transaction Statement → Delta → ValidationResult × Delta × Statement
  calculateStateHash : Delta → Nat → Hash × List Hash
  receiptValidationEnabled : Bool
  calculateMerkleHash : Statement → Hash
  zeroHash : Hash

namespace BlockchainProcessor
variable [DecidableEq Hash]

def checkStateHash (processor : BlockchainProcessor Hash Transaction Statement Delta)
    (element : BlockElement Hash Transaction Statement) (delta : Delta) :
    Except ValidationResult (BlockElement Hash Transaction Statement) :=
  let (stateHash, subCacheMerkleRoots) := processor.calculateStateHash delta element.block.height
  if element.block.stateHash ≠ stateHash then throw (.chain .blockInconsistentStateHash)
  else return { element with subCacheMerkleRoots }

def checkReceiptsHash (processor : BlockchainProcessor Hash Transaction Statement Delta)
    (element : BlockElement Hash Transaction Statement) (statement : Statement) :
    Except ValidationResult (BlockElement Hash Transaction Statement) :=
  let (receiptsHash, optionalStatement) :=
    if processor.receiptValidationEnabled then (processor.calculateMerkleHash statement, some statement)
    else (processor.zeroHash, element.optionalStatement)
  if element.block.receiptsHash ≠ receiptsHash then throw (.chain .blockInconsistentReceiptsHash)
  else return { element with optionalStatement }

def processElement (processor : BlockchainProcessor Hash Transaction Statement Delta) (parent : Block Hash)
    (parentGenerationHash : Hash) (element : BlockElement Hash Transaction Statement) (delta : Delta) :
    Except ValidationResult (BlockElement Hash Transaction Statement × Delta) := do
  -- 1. check generation hash
  let generationHash ← processor.checkGenerationHash element parent parentGenerationHash delta
  let element := { element with generationHash }
  -- 2. validate and observe block
  let (result, delta, statement) := processor.batchEntityProcessor element delta
  if !isValidationResultSuccess result then throw result
  -- 3. check state hash
  let element ← processor.checkStateHash element delta
  -- 4. check receipts hash
  let element ← processor.checkReceiptsHash element statement
  return (element, delta)

def processElements (processor : BlockchainProcessor Hash Transaction Statement Delta) (parent : Block Hash)
    (parentGenerationHash : Hash) : List (BlockElement Hash Transaction Statement) → Delta →
    Except ValidationResult (List (BlockElement Hash Transaction Statement) × Delta)
  | [], delta => return ([], delta)
  | element :: elements, delta => do
    let (element, delta) ← processor.processElement parent parentGenerationHash element delta
    let (elements, delta) ← processor.processElements element.block element.generationHash elements delta
    return (element :: elements, delta)

/-- The whole processor: the first block is linked to the parent, and then the blocks are processed. -/
def process (processor : BlockchainProcessor Hash Transaction Statement Delta)
    (parent : BlockElement Hash Transaction Statement) (elements : List (BlockElement Hash Transaction Statement))
    (delta : Delta) : Except ValidationResult (List (BlockElement Hash Transaction Statement) × Delta) :=
  match elements with
  | [] => throw .neutral
  | first :: _ =>
    if isChainLink parent.block parent.entityHash first.block then
      processor.processElements parent.block parent.generationHash elements delta
    else throw (.chain .unlinked)

variable {processor : BlockchainProcessor Hash Transaction Statement Delta} {parent : Block Hash} {parentHash : Hash}
  {element element' : BlockElement Hash Transaction Statement}
  {elements elements' : List (BlockElement Hash Transaction Statement)} {delta delta' : Delta}

def received (element : BlockElement Hash Transaction Statement) :
    Block Hash × Hash × List (TransactionElement Hash Transaction) :=
  (element.block, element.entityHash, element.transactions)

theorem received_checkStateHash (h : processor.checkStateHash element delta = .ok element') :
    received element' = received element := by
  unfold checkStateHash at h
  dsimp only at h
  split at h
  · cases h
  · rw [← Except.ok.inj h]
    rfl

theorem received_checkReceiptsHash {statement : Statement}
    (h : processor.checkReceiptsHash element statement = .ok element') : received element' = received element := by
  unfold checkReceiptsHash at h
  generalize (if processor.receiptValidationEnabled = true then _ else _ : Hash × Option Statement) = receipts at h
  dsimp only at h
  split at h
  · cases h
  · rw [← Except.ok.inj h]
    rfl

theorem received_processElement
    (h : processor.processElement parent parentHash element delta = .ok (element', delta')) :
    received element' = received element := by
  unfold processElement at h
  simp only [bind, Except.bind] at h
  split at h
  · cases h
  rename_i generationHash _
  split at h
  · cases h
  split at h
  · cases h
  rename_i checked hstate
  split at h
  · cases h
  rename_i complete hreceipts
  obtain ⟨hfst, -⟩ := Prod.mk.inj (Except.ok.inj h)
  rw [← hfst, received_checkReceiptsHash hreceipts, received_checkStateHash hstate]
  rfl

theorem map_received_processElements
    (h : processor.processElements parent parentHash elements delta = .ok (elements', delta')) :
    elements'.map received = elements.map received := by
  induction elements generalizing parent parentHash elements' delta with
  | nil =>
    obtain ⟨hfst, -⟩ := Prod.mk.inj (Except.ok.inj h)
    rw [← hfst]
  | cons element elements ih =>
    unfold processElements at h
    simp only [bind, Except.bind] at h
    split at h
    · cases h
    rename_i first hfirst
    split at h
    · cases h
    rename_i rest hrest
    obtain ⟨hfst, rfl⟩ := Prod.mk.inj (Except.ok.inj h)
    rw [← hfst, List.map_cons, List.map_cons, received_processElement hfirst, ih hrest]

theorem map_received_process {parentElement : BlockElement Hash Transaction Statement}
    (h : processor.process parentElement elements delta = .ok (elements', delta')) :
    elements'.map received = elements.map received := by
  unfold process at h
  split at h
  · cases h
  · split at h
    · exact map_received_processElements h
    · cases h

end BlockchainProcessor

/-!
## `BlockchainSyncConsumer`

The consumer that switches to the chain of a peer: it unwinds the local blocks above the common block on a delta of the
cache, compares the scores, processes the peer blocks, checks the link of the first importance block, and commits to
the block storage and to the cache. The handlers are parameters; the calls that matter outside are recorded in order.

The block storage is the list of its elements from height 1 on. The storage modifier starts from the elements up to the
common block and the commit replaces the elements of the storage.
-/

open Chain (add64)
open BlockchainProcessor (received)

inductive InputSource where
  | unknown
  | localNode
  | remotePull
  | remotePush
  deriving DecidableEq

inductive UndoBlockType where
  | rollback
  | common
  deriving DecidableEq

inductive CommitOperationStep where
  | blocksWritten
  | stateWritten
  | allUpdated
  deriving DecidableEq

structure HeightHashPair (Hash : Type) where
  height : Nat
  hash : Hash

variable {Hash Transaction Statement Delta Cache : Type}

inductive HandlerCall (Hash Transaction Statement Delta : Type) where
  | undoBlock (element : BlockElement Hash Transaction Statement) (type : UndoBlockType)
  | commitStep (step : CommitOperationStep)
  | stateChange (cacheDelta : Delta) (scoreDelta : Int) (height : Nat)
  | preStateWritten (cacheDelta : Delta) (height : Nat)
  | transactionsChange (addedTransactionHashes : List Hash)
      (revertedTransactionInfos : List (TransactionElement Hash Transaction))
  deriving DecidableEq

/-- The handlers, and the operations of the cache. -/
structure BlockchainSyncHandlers (Hash Transaction Statement Delta Cache : Type) where
  difficultyChecker : List (Block Hash) → Cache → Bool
  localFinalizedHeightHashPair : HeightHashPair Hash
  networkFinalizedHeightHashPair : HeightHashPair Hash
  processor : BlockchainProcessor Hash Transaction Statement Delta
  undoBlock : BlockElement Hash Transaction Statement → UndoBlockType → Delta → Delta
  createDelta : Cache → Delta
  pruneTime : Nat → Delta → Delta
  pruneHeight : Nat → Delta → Delta
  lastFinalizedHeight : Delta → Nat
  setLastFinalizedHeight : Nat → Delta → Delta
  commit : Delta → Nat → Cache

structure World (Hash Transaction Statement Delta Cache : Type) where
  storage : List (BlockElement Hash Transaction Statement)
  cache : Cache
  calls : List (HandlerCall Hash Transaction Statement Delta)

abbrev SyncM (Hash Transaction Statement Delta Cache : Type) :=
  EStateM Interrupt (World Hash Transaction Statement Delta Cache)

structure UnwindResult (Hash Transaction : Type) where
  score : Nat := 0
  transactionInfos : List (TransactionElement Hash Transaction) := []

structure SyncState (Hash Transaction Statement Delta : Type) where
  cacheDelta : Delta
  localFinalizedHeight : Nat
  localFinalizedTime : Nat
  commonBlockElement : BlockElement Hash Transaction Statement
  scoreDelta : Int
  removedTransactionInfos : List (TransactionElement Hash Transaction)

namespace BlockchainSyncConsumer
variable [DecidableEq Hash]

def elementAt (storage : List (BlockElement Hash Transaction Statement)) (height : Nat) :
    Option (BlockElement Hash Transaction Statement) :=
  if height = 0 then none else storage[height - 1]?

def call (handlerCall : HandlerCall Hash Transaction Statement Delta) :
    SyncM Hash Transaction Statement Delta Cache Unit :=
  modify fun world => { world with calls := world.calls ++ [handlerCall] }

def abortIf (condition : Bool) (failure : ConsumerFailure) : SyncM Hash Transaction Statement Delta Cache Unit :=
  if condition then throw (abortWith failure) else pure ()

def orThrow {α : Type} (value : Option α) : SyncM Hash Transaction Statement Delta Cache α :=
  match value with
  | some a => pure a
  | none => throw .exception

def loadBlockElement (height : Nat) :
    SyncM Hash Transaction Statement Delta Cache (BlockElement Hash Transaction Statement) := do
  let world ← get
  orThrow (elementAt world.storage height)

/-- Appends an element, which the storage accepts only at the next height. -/
def saveBlock (storage : List (BlockElement Hash Transaction Statement))
    (element : BlockElement Hash Transaction Statement) : Option (List (BlockElement Hash Transaction Statement)) :=
  if element.block.height = add64 storage.length 1 then some (storage ++ [element]) else none

def containsStored (storage : List (BlockElement Hash Transaction Statement)) (pair : HeightHashPair Hash) : Bool :=
  (elementAt storage pair.height).any fun element => element.entityHash = pair.hash

def containsElement (elements : List (BlockElement Hash Transaction Statement)) (peerStartHeight : Nat)
    (pair : HeightHashPair Hash) : Bool :=
  let peerEndHeight := add64 peerStartHeight (elements.length - 1)
  if peerStartHeight ≤ pair.height ∧ pair.height ≤ peerEndHeight then
    elements[pair.height - peerStartHeight]?.any fun element => element.entityHash = pair.hash
  else false

def isLinked (peerStartHeight localChainHeight : Nat) (source : InputSource) : Bool :=
  2 ≤ peerStartHeight && peerStartHeight ≤ add64 localChainHeight 1 &&
    (source = .remotePull || localChainHeight ≤ peerStartHeight)

def addChild (result : UnwindResult Hash Transaction) (parent : BlockElement Hash Transaction Statement) :
    Option (BlockElement Hash Transaction Statement) → Option (UnwindResult Hash Transaction)
  | none => some result
  | some child => do
    let score ← addScore result.score (calculateScore parent.block child.block)
    return { score, transactionInfos := child.transactions ++ result.transactionInfos }

/-- The loop of `unwindLocalChain` from a height down to the common height. -/
def unwindFrom (undoBlock : BlockElement Hash Transaction Statement → UndoBlockType → Delta → Delta)
    (commonBlockHeight : Nat) : Nat → Option (BlockElement Hash Transaction Statement) →
    UnwindResult Hash Transaction → Delta →
    SyncM Hash Transaction Statement Delta Cache (UnwindResult Hash Transaction × Delta)
  | 0, _, _, _ => throw .exception
  | height + 1, childBlockElement, result, delta => do
    let parentBlockElement ← loadBlockElement (height + 1)
    let result ← orThrow (addChild result parentBlockElement childBlockElement)
    if height + 1 = commonBlockHeight then do
      call (.undoBlock parentBlockElement .common)
      return (result, undoBlock parentBlockElement .common delta)
    else do
      call (.undoBlock parentBlockElement .rollback)
      unwindFrom undoBlock commonBlockHeight height (some parentBlockElement) result
        (undoBlock parentBlockElement .rollback delta)

def unwindLocalChain (handlers : BlockchainSyncHandlers Hash Transaction Statement Delta Cache)
    (localChainHeight commonBlockHeight : Nat) (delta : Delta) :
    SyncM Hash Transaction Statement Delta Cache (UnwindResult Hash Transaction × Delta) :=
  if localChainHeight = commonBlockHeight then return ({}, delta)
  else unwindFrom handlers.undoBlock commonBlockHeight localChainHeight none {} delta

def preprocess (handlers : BlockchainSyncHandlers Hash Transaction Statement Delta Cache)
    (elements : List (BlockElement Hash Transaction Statement)) (peerStartHeight : Nat) (source : InputSource) :
    SyncM Hash Transaction Statement Delta Cache (SyncState Hash Transaction Statement Delta) := do
  -- 1. check that the peer chain can be linked to the current chain
  let world ← get
  let localChainHeight := world.storage.length
  abortIf (!isLinked peerStartHeight localChainHeight source) .remoteChainUnlinked
  -- 2. check that the remote chain is not too far behind the current chain
  let isFinalizedBlockUpdate := !containsStored world.storage handlers.networkFinalizedHeightHashPair &&
    containsElement elements peerStartHeight handlers.networkFinalizedHeightHashPair
  let localFinalizedHeight := handlers.localFinalizedHeightHashPair.height
  abortIf (peerStartHeight ≤ localFinalizedHeight && !isFinalizedBlockUpdate) .remoteChainTooFarBehind
  -- 3. check difficulties against difficulties in cache
  let blocks := elements.map (·.block)
  abortIf (!handlers.difficultyChecker blocks world.cache) .remoteChainDifficultiesMismatch
  -- 4. unwind to the common block height and calculate the local chain score
  let localFinalizedElement ← loadBlockElement localFinalizedHeight
  let commonBlockHeight := peerStartHeight - 1
  let (unwindResult, cacheDelta) ←
    unwindLocalChain handlers localChainHeight commonBlockHeight (handlers.createDelta world.cache)
  -- 5. calculate the remote chain score
  let commonBlockElement ← loadBlockElement commonBlockHeight
  let peerScore ← orThrow (calculatePartialChainScore commonBlockElement.block blocks)
  -- 6. do not accept a chain with the same score
  abortIf (peerScore ≤ unwindResult.score && !isFinalizedBlockUpdate) .remoteChainScoreNotBetter
  let scoreDelta ← orThrow (subScore peerScore unwindResult.score)
  return { cacheDelta, localFinalizedHeight, localFinalizedTime := localFinalizedElement.block.timestamp,
           commonBlockElement, scoreDelta, removedTransactionInfos := unwindResult.transactionInfos }

def checkImportanceLink (importanceGrouping : Nat) : List (BlockElement Hash Transaction Statement) →
    SyncM Hash Transaction Statement Delta Cache Unit
  | [] => return
  | element :: elements =>
    if !isImportanceBlock element.block.type then checkImportanceLink importanceGrouping elements
    else do
      let previousHeight ← orThrow (previousGroupedHeight element.block.height importanceGrouping)
      let previous ← loadBlockElement previousHeight
      abortIf (previous.entityHash ≠ element.block.previousImportanceBlockHash) .remoteChainImproperImportanceLink

def process (handlers : BlockchainSyncHandlers Hash Transaction Statement Delta Cache) (importanceGrouping : Nat)
    (elements : List (BlockElement Hash Transaction Statement))
    (syncState : SyncState Hash Transaction Statement Delta) :
    SyncM Hash Transaction Statement Delta Cache
      (List (BlockElement Hash Transaction Statement) × SyncState Hash Transaction Statement Delta) := do
  match handlers.processor.process syncState.commonBlockElement elements syncState.cacheDelta with
  | .error result => throw (.abort result)
  | .ok (elements, cacheDelta) =>
    checkImportanceLink importanceGrouping elements
    return (elements, { syncState with cacheDelta })

def extractTransactionHashes (elements : List (BlockElement Hash Transaction Statement)) : List Hash :=
  elements.flatMap fun element => element.transactions.map (·.entityHash)

def collectRevertedTransactionInfos (addedTransactionHashes : List Hash)
    (removedTransactionInfos : List (TransactionElement Hash Transaction)) :
    List (TransactionElement Hash Transaction) :=
  removedTransactionInfos.filter fun transactionInfo => transactionInfo.entityHash ∉ addedTransactionHashes

def pruneRange (handlers : BlockchainSyncHandlers Hash Transaction Statement Delta Cache) (startHeight endHeight : Nat)
    (delta : Delta) : Delta :=
  (List.range (endHeight - startHeight)).foldl (fun delta i => handlers.pruneHeight (startHeight + 1 + i) delta) delta

def prune (handlers : BlockchainSyncHandlers Hash Transaction Statement Delta Cache)
    (syncState : SyncState Hash Transaction Statement Delta) : Delta :=
  let delta := handlers.pruneTime syncState.localFinalizedTime syncState.cacheDelta
  pruneRange handlers (handlers.lastFinalizedHeight delta) syncState.localFinalizedHeight delta

def commitAll (handlers : BlockchainSyncHandlers Hash Transaction Statement Delta Cache) (newHeight : Nat)
    (elements : List (BlockElement Hash Transaction Statement))
    (syncState : SyncState Hash Transaction Statement Delta) : SyncM Hash Transaction Statement Delta Cache Unit := do
  -- 1. save the peer chain into storage
  let world ← get
  let staged ← orThrow (elements.foldlM saveBlock (world.storage.take syncState.commonBlockElement.block.height))
  call (.commitStep .blocksWritten)
  -- 2. prune the cache
  let cacheDelta := prune handlers syncState
  -- 3. indicate a state change
  call (.stateChange cacheDelta syncState.scoreDelta newHeight)
  call (.preStateWritten cacheDelta newHeight)
  call (.commitStep .stateWritten)
  -- 4. commit changes to the in-memory cache and primary blockchain storage
  modify fun world => { world with
    cache := handlers.commit (handlers.setLastFinalizedHeight syncState.localFinalizedHeight cacheDelta) newHeight }
  modify fun world => { world with storage := staged }
  call (.commitStep .allUpdated)
  -- 5. update the unconfirmed transactions
  let peerTransactionHashes := extractTransactionHashes elements
  call (.transactionsChange peerTransactionHashes
    (collectRevertedTransactionInfos peerTransactionHashes syncState.removedTransactionInfos))

def sync (handlers : BlockchainSyncHandlers Hash Transaction Statement Delta Cache) (importanceGrouping : Nat)
    (elements : List (BlockElement Hash Transaction Statement)) (source : InputSource) :
    SyncM Hash Transaction Statement Delta Cache Unit :=
  match elements with
  | [] => throw (abortWith .emptyInput)
  | first :: rest => do
    let syncState ← preprocess handlers (first :: rest) first.block.height source
    let (elements, syncState) ← process handlers importanceGrouping (first :: rest) syncState
    -- `elements.back()`; the processor leaves the blocks alone
    commitAll handlers (elements.getLastD first).block.height elements syncState

end BlockchainSyncConsumer

end Catapult.Consumers
