import Catapult.CacheTx.UtCache
import Catapult.Model.FeeUtils
import Catapult.Observers.UndoOrder

/-!
# The updater of the unconfirmed transactions (`UtUpdater`)

The updater has a detached copy of the confirmed cache, to which it applies the transactions that it adds to the
unconfirmed transactions cache. A commit of the confirmed cache makes the copy invalid until it is rebased. What throws
has no result.
-/

namespace Catapult.Chain.UtUpdater
open CacheTx (UtInfo UtCache)
open Observers (Notification NotificationObserver NotificationValidator ObserverContext ObserverState ValidationResult
  ProcessingNotificationSubscriber)

abbrev Height := Observers.Height
abbrev Timestamp := UInt64

inductive UpdateType where
  | new
  | invalid
  | neutral
  deriving DecidableEq

inductive TransactionSource where
  | new
  | reverted
  | existing

def failureChainUnconfirmedCacheTooFull : ValidationResult := 0x80FF0007

def isValidationResultFailure (result : ValidationResult) : Bool := result.getSeverity == 2

variable {Hash Key Body Resolvers Cache Statement : Type} [LinearOrder Hash] [LinearOrder Key]

structure Config (Hash Key Body Resolvers Cache Statement : Type) [LinearOrder Hash] [LinearOrder Key] where
  maxCacheSize : UInt64
  minFeeMultiplier : UInt32
  publisher : UtInfo Hash Key Body → List Notification
  validator : Height → Timestamp → NotificationValidator Cache
  observer : NotificationObserver Resolvers Cache Statement
  bind : Resolvers → Resolvers
  resolvers : Resolvers
  throttle : UtInfo Hash Key Body → TransactionSource → Height → Cache → UtCache Hash Key Body → Bool

variable (config : Config Hash Key Body Resolvers Cache Statement)

def Config.state (cache : Cache) (_ : Config Hash Key Body Resolvers Cache Statement) : ObserverState Cache Statement :=
  ⟨cache, none⟩

def Config.observerContext (height : Height) (cache : Cache) : ObserverContext Resolvers :=
  .create config.bind height config.resolvers (config.state cache) .commit

structure ApplyState (Hash Key Body Cache : Type) [LinearOrder Hash] [LinearOrder Key] where
  modifier : UtCache Hash Key Body
  unconfirmedCatapultCache : Cache

abbrev Failures (Hash : Type) := List (Hash × ValidationResult)

section Apply
variable (cacheHeight : Height) (time : Timestamp) (source : TransactionSource)
  (filter : UtInfo Hash Key Body → Bool)

/-- The validator and observer context height is one larger than the height of the cache. -/
def effectiveHeight : Height := cacheHeight + 1

def applyTransaction (applyState : ApplyState Hash Key Body Cache) (utInfo : UtInfo Hash Key Body) :
    Option (ApplyState Hash Key Body Cache × UpdateType × Failures Hash) :=
  if !filter utInfo then some (applyState, .neutral, [])
  else if utInfo.maxFee < Model.calculateTransactionFee config.minFeeMultiplier utInfo.size then
    some (applyState, .neutral, [])
  else if config.throttle utInfo source cacheHeight applyState.unconfirmedCatapultCache applyState.modifier then
    some (applyState, .neutral, [(utInfo.entityHash, failureChainUnconfirmedCacheTooFull)])
  else
    match applyState.modifier.add config.maxCacheSize utInfo with
    | none => some (applyState, .neutral, [])
    | some modifier => do
      let context := config.observerContext (effectiveHeight cacheHeight) applyState.unconfirmedCatapultCache
      let (sub, state) ← ProcessingNotificationSubscriber.publish
        (config.validator (effectiveHeight cacheHeight) time) config.observer context (config.publisher utInfo)
        (ProcessingNotificationSubscriber.create.enableUndo, config.state applyState.unconfirmedCatapultCache)
      if sub.aggregateResult.isSuccess then some (⟨modifier, state.cache⟩, .new, [])
      else
        let failures :=
          if isValidationResultFailure sub.aggregateResult then [(utInfo.entityHash, sub.aggregateResult)] else []
        let (_, undone) ← sub.undo config.bind config.observer context state
        let modifier' ← modifier.remove utInfo.entityHash
        some (⟨modifier', undone.cache⟩, .invalid, failures)

def apply (applyState : ApplyState Hash Key Body Cache) : List (UtInfo Hash Key Body) →
    Option (ApplyState Hash Key Body Cache × List UpdateType × Failures Hash)
  | [] => some (applyState, [], [])
  | utInfo :: utInfos => do
    let (applyState', updateType, failures) ← applyTransaction config cacheHeight time source filter applyState utInfo
    let (applyState'', updateResults, failures') ← apply applyState' utInfos
    return (applyState'', updateType :: updateResults, failures ++ failures')

end Apply

def addAll (modifier : UtCache Hash Key Body) (utInfos : List (UtInfo Hash Key Body)) :
    UtCache Hash Key Body :=
  utInfos.foldl (fun modifier utInfo => (modifier.add config.maxCacheSize utInfo).getD modifier) modifier

structure ConfirmedCache (Cache : Type) where
  cache : Cache
  height : Height
  commitCounter : Nat

/-- `RelockableDetachedCatapultCache`. -/
structure DetachedCache (Cache : Type) where
  cacheHeight : Height
  cacheDelta : Cache
  initialCommitCount : Nat

def rebaseAndLock (confirmed : ConfirmedCache Cache) : DetachedCache Cache :=
  ⟨confirmed.height, confirmed.cache, confirmed.commitCounter⟩

structure System (Hash Key Body Cache : Type) [LinearOrder Hash] [LinearOrder Key] where
  confirmed : ConfirmedCache Cache
  transactionsCache : UtCache Hash Key Body
  detached : DetachedCache Cache

namespace System

def init (confirmed : ConfirmedCache Cache) : System Hash Key Body Cache := ⟨confirmed, {}, rebaseAndLock confirmed⟩

variable (system : System Hash Key Body Cache)

def getAndTryLock : Option Cache :=
  if system.detached.initialCommitCount ≠ system.confirmed.commitCounter then none
  else some system.detached.cacheDelta

def setApplied (applyState : ApplyState Hash Key Body Cache) : System Hash Key Body Cache :=
  { system with
    transactionsCache := applyState.modifier
    detached := { system.detached with cacheDelta := applyState.unconfirmedCatapultCache } }

/-- When there is no unconfirmed cache, everything is added without validation. The loop that makes the results has a
32 bit index. -/
def update (time : Timestamp) (utInfos : List (UtInfo Hash Key Body)) :
    Option (System Hash Key Body Cache × List UpdateType × Failures Hash) :=
  match system.getAndTryLock with
  | none =>
    if 2 ^ 32 ≤ utInfos.length then none
    else
      some ({ system with transactionsCache := addAll config system.transactionsCache utInfos },
        utInfos.map fun _ => .neutral, [])
  | some unconfirmedCatapultCache => do
    let (applyState, updateResults, failures) ← apply config system.detached.cacheHeight time .new (fun _ => true)
      ⟨system.transactionsCache, unconfirmedCatapultCache⟩ utInfos
    return (system.setApplied applyState, updateResults, failures)

/-- The `update` after a change of the chain: the reverted transactions first, and then those that were there and that
have not been confirmed. -/
def updateConfirmed (time time' : Timestamp) (confirmedTransactionHashes : List Hash)
    (utInfos : List (UtInfo Hash Key Body)) : Option (System Hash Key Body Cache × Failures Hash) := do
  let (originalTransactionInfos, modifier) := system.transactionsCache.removeAll
  let rebased := { system with detached := rebaseAndLock system.confirmed }
  let (applyState, _, failures) ← apply config rebased.detached.cacheHeight time .reverted (fun _ => true)
    ⟨modifier, rebased.detached.cacheDelta⟩ utInfos
  let (applyState', _, failures') ← apply config rebased.detached.cacheHeight time' .existing
    (fun info => info.entityHash ∉ confirmedTransactionHashes) applyState originalTransactionInfos
  return (rebased.setApplied applyState', failures ++ failures')

def commit (cache : Cache) (height : Height) : System Hash Key Body Cache :=
  { system with confirmed := ⟨cache, height, system.confirmed.commitCounter + 1⟩ }

end System

/-- What the callers of `updateConfirmed` do with the transactions of the blocks that are removed. -/
def collectRevertedTransactionInfos (addedTransactionHashes : List Hash)
    (removedTransactionInfos : List (UtInfo Hash Key Body)) : List (UtInfo Hash Key Body) :=
  removedTransactionInfos.filter fun info => info.entityHash ∉ addedTransactionHashes

inductive Event (Hash Key Body Cache : Type) where
  | update (time : Timestamp) (utInfos : List (UtInfo Hash Key Body))
  | updateConfirmed (time time' : Timestamp) (confirmedTransactionHashes : List Hash)
      (utInfos : List (UtInfo Hash Key Body))
  | commit (cache : Cache) (height : Height)

def System.step (system : System Hash Key Body Cache) :
    Event Hash Key Body Cache → Option (System Hash Key Body Cache)
  | .update time utInfos => (system.update config time utInfos).map Prod.fst
  | .updateConfirmed time time' confirmedTransactionHashes utInfos =>
    (system.updateConfirmed config time time' confirmedTransactionHashes utInfos).map Prod.fst
  | .commit cache height => some (system.commit cache height)

def System.run (system : System Hash Key Body Cache) (events : List (Event Hash Key Body Cache)) :
    Option (System Hash Key Body Cache) := events.foldlM (System.step config) system

end Catapult.Chain.UtUpdater
