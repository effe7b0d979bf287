import Catapult.Currency.Inflation
import Catapult.Observers.UndoOrder

/-!
# Executing a block (`NotificationPublisher`, `BlockExecutor`)

What a block publishes that moves balances, and the observers of it: the accounts that are added, the balance
transfers of the transactions with the fee that each one is debited, and the block notification, of which the
harvester, the network and the beneficiary receive their shares. Amounts are 64 bit values.
-/

namespace Catapult.Currency
open Catapult.Observers (NotifyMode)
open Catapult.Chain (add64 sub64)

variable {Address MosaicId : Type}

inductive AmountType where
  | static
  | dynamic
  deriving DecidableEq

/-- What a transaction plugin publishes here, with resolved addresses and mosaics. The amount that a hash or secret lock
transaction debits and holds in its lock is left out. -/
inductive CustomNotification (Address MosaicId : Type) where
  | accountAddress (address : Address)
  | balanceTransfer (sender recipient : Address) (mosaicId : MosaicId) (amount : Nat) (amountType : AmountType)

inductive Notification (Address MosaicId : Type) where
  | custom (notification : CustomNotification Address MosaicId)
  | accountPublicKey (address : Address)
  | balanceDebit (sender : Address) (mosaicId : MosaicId) (amount : Nat)
  | block (harvester beneficiary : Address) (feeMultiplier totalFee : Nat)

structure Transaction (Address MosaicId : Type) where
  signer : Address
  size : Nat
  maxFee : Nat
  notifications : List (CustomNotification Address MosaicId)

/-- `reserved1` is set only by a harvester that tries out transactions. -/
structure Block (Address MosaicId : Type) where
  signer : Address
  height : Nat
  feeMultiplier : Nat
  beneficiary : Address
  reserved1 : Nat := 0
  transactions : List (Transaction Address MosaicId)

def calculateTransactionFee (feeMultiplier : Nat) (transaction : Transaction Address MosaicId) : Nat :=
  feeMultiplier * transaction.size % 2 ^ 64

/-- `CalculateBlockTransactionsInfo`. -/
def totalFee (block : Block Address MosaicId) : Nat :=
  block.transactions.foldl
    (fun fee transaction => add64 fee (calculateTransactionFee block.feeMultiplier transaction)) 0

def transactionFee (block : Block Address MosaicId) (transaction : Transaction Address MosaicId) : Nat :=
  if block.reserved1 = 0 then calculateTransactionFee block.feeMultiplier transaction else transaction.maxFee

def publishTransaction (config : Configuration Address MosaicId) (block : Block Address MosaicId)
    (transaction : Transaction Address MosaicId) : List (Notification Address MosaicId) :=
  let feeDebit := .balanceDebit transaction.signer config.currencyMosaicId (transactionFee block transaction)
  let custom := transaction.notifications.map .custom
  .accountPublicKey transaction.signer ::
    if config.feeDebitAppliedLastForkHeight ≤ block.height then custom ++ [feeDebit] else feeDebit :: custom

section Observers
variable [DecidableEq Address] [DecidableEq MosaicId]

def publishBlock (block : Block Address MosaicId) : List (Notification Address MosaicId) :=
  .accountPublicKey block.signer ::
    (if block.signer ≠ block.beneficiary then [.custom (.accountAddress block.beneficiary)] else []) ++
    [.block block.signer block.beneficiary block.feeMultiplier (totalFee block)]

def publishAll (config : Configuration Address MosaicId) (block : Block Address MosaicId) :
    List (Notification Address MosaicId) :=
  block.transactions.flatMap (publishTransaction config block) ++ publishBlock block

/-- The accounts, the statistics of the last blocks (height and fee multiplier, the last one first), and the fee
multiplier that is calculated of them. -/
structure State (Address MosaicId : Type) where
  cache : AccountStateCache Address MosaicId
  statistics : List (Nat × Nat)
  dynamicFeeMultiplier : Nat

def observeAccountAddress (height : Nat) (mode : NotifyMode) (cache : AccountStateCache Address MosaicId)
    (address : Address) : AccountStateCache Address MosaicId :=
  match mode with
  | .commit => cache.addAccount address height
  | .rollback => cache.queueRemove address height

def observeAccountPublicKey (height : Nat) (mode : NotifyMode) (cache : AccountStateCache Address MosaicId)
    (address : Address) : AccountStateCache Address MosaicId :=
  match mode with
  | .commit => cache.addPublicKey address height
  | .rollback => cache.queueRemovePublicKey address height

def transfer (cache : AccountStateCache Address MosaicId) (debitAddress creditAddress : Address) (mosaicId : MosaicId)
    (amount : Nat) : Option (AccountStateCache Address MosaicId) := do
  let debited ← cache.debit debitAddress mosaicId amount
  debited.credit creditAddress mosaicId amount

def effectiveAmount (dynamicFeeMultiplier amount : Nat) : AmountType → Nat
  | .static => amount
  | .dynamic => amount * dynamicFeeMultiplier % 2 ^ 64

def observeBalanceTransfer (mode : NotifyMode) (cache : AccountStateCache Address MosaicId)
    (sender recipient : Address) (mosaicId : MosaicId) (amount : Nat) : Option (AccountStateCache Address MosaicId) :=
  match mode with
  | .commit => transfer cache sender recipient mosaicId amount
  | .rollback => transfer cache recipient sender mosaicId amount

def observeBalanceDebit (mode : NotifyMode) (cache : AccountStateCache Address MosaicId) (sender : Address)
    (mosaicId : MosaicId) (amount : Nat) : Option (AccountStateCache Address MosaicId) :=
  match mode with
  | .commit => cache.debit sender mosaicId amount
  | .rollback => cache.credit sender mosaicId amount

def percentageOf (amount percentage : Nat) : Nat := amount * percentage % 2 ^ 64 / 100

def shouldShareFees (config : Configuration Address MosaicId) (harvester beneficiary : Address) : Prop :=
  0 < config.harvestBeneficiaryPercentage ∧ harvester ≠ beneficiary

instance (config : Configuration Address MosaicId) (harvester beneficiary : Address) :
    Decidable (shouldShareFees config harvester beneficiary) := inferInstanceAs (Decidable (_ ∧ _))

structure HarvestAmounts where
  harvester : Nat
  network : Nat
  beneficiary : Nat

def harvestAmounts (config : Configuration Address MosaicId) (harvester beneficiary : Address) (totalAmount : Nat) :
    HarvestAmounts :=
  let networkAmount := percentageOf totalAmount config.harvestNetworkPercentage
  let beneficiaryAmount :=
    if shouldShareFees config harvester beneficiary then
      percentageOf totalAmount config.harvestBeneficiaryPercentage
    else 0
  { harvester := sub64 (sub64 totalAmount networkAmount) beneficiaryAmount
    network := networkAmount
    beneficiary := beneficiaryAmount }

def feeShares (config : Configuration Address MosaicId) (height : Nat) (harvester beneficiary : Address)
    (amounts : HarvestAmounts) : List (Address × Nat) :=
  (harvester, amounts.harvester) ::
    ((if amounts.network ≠ 0 then [(config.harvestNetworkFeeSinkAddress.get height, amounts.network)] else []) ++
      if amounts.beneficiary ≠ 0 then [(beneficiary, amounts.beneficiary)] else [])

def applyFee (mosaicId : MosaicId) (mode : NotifyMode) (cache : AccountStateCache Address MosaicId)
    (share : Address × Nat) : Option (AccountStateCache Address MosaicId) := do
  let address ← cache.forwarded share.1
  match mode with
  | .commit => cache.credit address mosaicId share.2
  | .rollback => cache.debit address mosaicId share.2

def observeHarvestFee (config : Configuration Address MosaicId) (height : Nat) (mode : NotifyMode)
    (cache : AccountStateCache Address MosaicId) (harvester beneficiary : Address) (totalFee : Nat) :
    Option (AccountStateCache Address MosaicId) :=
  let totalAmount := add64 totalFee (config.inflation.getSpotAmount height)
  let amounts := harvestAmounts config harvester beneficiary totalAmount
  (feeShares config height harvester beneficiary amounts).foldlM (applyFee config.currencyMosaicId mode) cache

/-- The middle one of `count` multipliers, where the default stands for those that are zero or missing. -/
def calculateDynamicFeeMultiplier (statistics : List (Nat × Nat)) (count defaultFeeMultiplier : Nat) : Nat :=
  if count = 0 then defaultFeeMultiplier
  else
    let feeMultipliers := ((statistics.map Prod.snd).filter (· ≠ 0)).take count
    let padded := feeMultipliers ++ List.replicate (count - feeMultipliers.length) defaultFeeMultiplier
    (padded.mergeSort (· ≤ ·))[count / 2]?.getD defaultFeeMultiplier

/-- The multiplier after the statistics have changed. The range of an empty cache or of no blocks is refused. -/
def recalculate (config : Configuration Address MosaicId) (statistics : List (Nat × Nat)) : Option Nat :=
  if statistics = [] ∨ config.maxDifficultyBlocks = 0 then none
  else
    some (calculateDynamicFeeMultiplier (statistics.take config.maxDifficultyBlocks).reverse config.maxDifficultyBlocks
      config.defaultDynamicFeeMultiplier)

def insertStatistic (statistics : List (Nat × Nat)) (statistic : Nat × Nat) : Option (List (Nat × Nat)) :=
  match statistics with
  | [] => some [statistic]
  | (height, _) :: _ => if statistic.1 = height + 1 then some (statistic :: statistics) else none

def removeStatistic (statistics : List (Nat × Nat)) (height : Nat) : Option (List (Nat × Nat)) :=
  match statistics with
  | [] => none
  | (lastHeight, _) :: rest => if lastHeight = height then some rest else none

def observeBlockStatistic (config : Configuration Address MosaicId) (height feeMultiplier : Nat) (mode : NotifyMode)
    (state : State Address MosaicId) : Option (State Address MosaicId) := do
  let statistics ← match mode with
    | .commit => insertStatistic state.statistics (height, feeMultiplier)
    | .rollback => removeStatistic state.statistics height
  let dynamicFeeMultiplier ← recalculate config statistics
  return { state with statistics, dynamicFeeMultiplier }

def observeCustom (height : Nat) (mode : NotifyMode) (state : State Address MosaicId) :
    CustomNotification Address MosaicId → Option (State Address MosaicId)
  | .accountAddress address => some { state with cache := observeAccountAddress height mode state.cache address }
  | .balanceTransfer sender recipient mosaicId amount amountType => do
    let cache ← observeBalanceTransfer mode state.cache sender recipient mosaicId
      (effectiveAmount state.dynamicFeeMultiplier amount amountType)
    return { state with cache }

/-- All observers of a notification. Those of a block are undone in the opposite order. -/
def observe (config : Configuration Address MosaicId) (height : Nat) (mode : NotifyMode)
    (state : State Address MosaicId) : Notification Address MosaicId → Option (State Address MosaicId)
  | .custom notification => observeCustom height mode state notification
  | .accountPublicKey address => some { state with cache := observeAccountPublicKey height mode state.cache address }
  | .balanceDebit sender mosaicId amount => do
    let cache ← observeBalanceDebit mode state.cache sender mosaicId amount
    return { state with cache }
  | .block harvester beneficiary feeMultiplier totalFee =>
    match mode with
    | .commit => do
      let cache ← observeHarvestFee config height mode state.cache harvester beneficiary totalFee
      observeBlockStatistic config height feeMultiplier mode { state with cache }
    | .rollback => do
      let state ← observeBlockStatistic config height feeMultiplier mode state
      let cache ← observeHarvestFee config height mode state.cache harvester beneficiary totalFee
      return { state with cache }

def executeBlock (config : Configuration Address MosaicId) (block : Block Address MosaicId)
    (state : State Address MosaicId) : Option (State Address MosaicId) :=
  (publishAll config block).foldlM (observe config block.height .commit) state

def rollbackBlock (config : Configuration Address MosaicId) (block : Block Address MosaicId)
    (state : State Address MosaicId) : Option (State Address MosaicId) := do
  let state ← (publishAll config block).reverse.foldlM (observe config block.height .rollback) state
  return { state with cache := state.cache.commitRemovals }

end Observers
end Catapult.Currency
