import Catapult.Cache.IdentifierGroup
import Catapult.Namespaces.RootNamespaceHistory

/-!
# The namespace cache (`BasicNamespaceCacheDelta`)

The cache has the histories of the roots, a flat map with the namespaces that can be found by their ids, the ids of
the roots grouped by the heights at which they end, and two counters.

The counters are integers here, so that nothing wraps around and nothing is cut off at zero. A history that the
source dereferences without a check is matched, and nothing happens without it.
-/

namespace Catapult.Namespaces
open Cache

structure NamespaceCacheDelta (Address : Type) where
  historyById : SortedMap NamespaceId (RootNamespaceHistory Address)
  namespaceById : SortedMap NamespaceId Namespace
  rootNamespaceIdsByExpiryHeight : GroupedSet Nat NamespaceId
  activeSize : Int
  deepSize : Int

namespace NamespaceCacheDelta
variable {Address : Type} [DecidableEq Address]

def empty : NamespaceCacheDelta Address := ⟨∅, ∅, .empty, 0, 0⟩

def incrementActiveSize (delta : Nat) (cache : NamespaceCacheDelta Address) : NamespaceCacheDelta Address :=
  { cache with activeSize := cache.activeSize + delta }

def decrementActiveSize (delta : Nat) (cache : NamespaceCacheDelta Address) : NamespaceCacheDelta Address :=
  { cache with activeSize := cache.activeSize - delta }

def incrementDeepSize (delta : Nat) (cache : NamespaceCacheDelta Address) : NamespaceCacheDelta Address :=
  { cache with deepSize := cache.deepSize + delta }

def decrementDeepSize (delta : Nat) (cache : NamespaceCacheDelta Address) : NamespaceCacheDelta Address :=
  { cache with deepSize := cache.deepSize - delta }

def addAll (namespaceById : SortedMap NamespaceId Namespace) (children : Children Address) :
    SortedMap NamespaceId Namespace :=
  namespaceById.insertAll (children.entries.map fun pair => (pair.2.ns.id, pair.2.ns))

def removeAll (namespaceById : SortedMap NamespaceId Namespace) (children : Children Address) :
    SortedMap NamespaceId Namespace :=
  namespaceById.eraseAll children.keys

def updateHistory (id : NamespaceId) (history : RootNamespaceHistory Address) (cache : NamespaceCacheDelta Address) :
    NamespaceCacheDelta Address :=
  { cache with historyById := cache.historyById.insert id history }

def updateNamespaces (f : SortedMap NamespaceId Namespace → SortedMap NamespaceId Namespace)
    (cache : NamespaceCacheDelta Address) : NamespaceCacheDelta Address :=
  { cache with namespaceById := f cache.namespaceById }

def addExpiry (height : Nat) (id : NamespaceId) (cache : NamespaceCacheDelta Address) : NamespaceCacheDelta Address :=
  { cache with rootNamespaceIdsByExpiryHeight := cache.rootNamespaceIdsByExpiryHeight.addIdentifierWithGroup height id }

def removeExpiry (height : Nat) (id : NamespaceId) (cache : NamespaceCacheDelta Address) :
    NamespaceCacheDelta Address :=
  { cache with
    rootNamespaceIdsByExpiryHeight := cache.rootNamespaceIdsByExpiryHeight.removeIdentifierWithGroup height id }

/-- An operation on the cache; the cache is also given when something is thrown. -/
abbrev CacheM (Address : Type) := EStateM NamespaceError (NamespaceCacheDelta Address)

/-- A change of the most recent root of a history, in place. -/
def modifyBack (id : NamespaceId) (history : RootNamespaceHistory Address)
    (f : EStateM NamespaceError (SharedRoots Address) Unit) : CacheM Address (RootNamespaceHistory Address) := do
  match f.run history.last with
  | .ok _ last =>
    modify (updateHistory id { history with last := last })
    return { history with last := last }
  | .error e last =>
    modify (updateHistory id { history with last := last })
    throw e

def insertRoot (ns : RootNamespace Address) : CacheM Address Unit := do
  modify (addExpiry ns.lifetime.endHeight ns.id)
  match (← get).historyById.find? ns.id with
  | some history =>
    let activeChildren := history.activeChildren
    if !ns.canExtend history.back then
      modify (updateNamespaces (removeAll · activeChildren))
      modify (decrementActiveSize activeChildren.size)
    else
      modify (incrementDeepSize activeChildren.size)
    modify (updateHistory ns.id (history.pushBack ns.ownerAddress ns.lifetime))
    modify (incrementDeepSize 1)
  | none =>
    modify (updateHistory ns.id (.ofRoot ns.id ns.ownerAddress ns.lifetime))
    modify (incrementActiveSize 1)
    modify (incrementDeepSize 1)
    modify (updateNamespaces fun namespaceById => namespaceById.insert ns.id (.ofId ns.id))

def insertChild (ns : Namespace) : CacheM Address Unit := do
  match (← get).historyById.find? ns.rootId with
  | none => throw (.noRootNamespace ns.id)
  | some history =>
    let history ← modifyBack ns.rootId history (SharedRoots.add ns)
    modify (incrementActiveSize 1)
    modify (incrementDeepSize history.activeOwnerHistoryDepth)
    modify (updateNamespaces fun namespaceById => namespaceById.insert ns.id ns)

def setAlias (id : NamespaceId) (namespaceAlias : NamespaceAlias Address) : CacheM Address Unit := do
  match (← get).namespaceById.find? id with
  | none => throw (.noNamespace id)
  | some ns =>
    match (← get).historyById.find? ns.rootId with
    | none => return
    | some history =>
      let _ ← modifyBack ns.rootId history (SharedRoots.setAlias id namespaceAlias)

def removeRoot (id : NamespaceId) : CacheM Address Unit := do
  match (← get).historyById.find? id with
  | none => return
  | some history =>
    if history.historyDepth = 1 ∧ history.activeChildren.size ≠ 0 then
      throw (.rootWithChildren id)
    let removedRoot := history.back
    let removedChildren := history.activeChildren
    modify (removeExpiry removedRoot.lifetime.endHeight id)
    match history.popBack with
    | none =>
      modify fun cache => { cache with historyById := cache.historyById.erase id }
      modify (updateNamespaces fun namespaceById => namespaceById.erase id)
      modify (decrementActiveSize 1)
      modify (decrementDeepSize 1)
    | some history =>
      modify (updateHistory id history)
      if !removedRoot.canExtend history.back then
        modify (updateNamespaces (removeAll · removedChildren))
        modify (decrementActiveSize removedChildren.size)
        modify (updateNamespaces (addAll · history.activeChildren))
        modify (incrementActiveSize history.activeChildren.size)
      modify (decrementDeepSize (1 + removedChildren.size))

def removeChild (ns : Namespace) : CacheM Address Unit := do
  match (← get).historyById.find? ns.rootId with
  | none => return
  | some history =>
    let history ← modifyBack ns.rootId history (SharedRoots.remove ns.id)
    modify (updateNamespaces fun namespaceById => namespaceById.erase ns.id)
    modify (decrementActiveSize 1)
    modify (decrementDeepSize history.activeOwnerHistoryDepth)

def remove (id : NamespaceId) : CacheM Address Unit := do
  match (← get).namespaceById.find? id with
  | none => throw (.noNamespace id)
  | some ns => if ns.rootId = id then removeRoot id else removeChild ns

/-- `NamespaceSizes::Active` of a history that may be empty. -/
def activeSizeOf : Option (RootNamespaceHistory Address) → Nat
  | none => 0
  | some history => 1 + history.numActiveRootChildren

/-- `NamespaceSizes::Deep` of a history that may be empty. -/
def deepSizeOf : Option (RootNamespaceHistory Address) → Nat
  | none => 0
  | some history => history.historyDepth + history.numAllHistoricalChildren

/-- The history of an id in the loop of `prune`. -/
def pruneHistory (height : Nat) (id : NamespaceId) (cache : NamespaceCacheDelta Address) :
    NamespaceCacheDelta Address :=
  match cache.historyById.find? id with
  | none => cache
  | some history =>
    { cache with
      historyById := cache.historyById.alter id fun _ => history.prune height
      namespaceById := cache.namespaceById.eraseAll (history.prunedIds height).keys
      activeSize := cache.activeSize - ((activeSizeOf (some history) : Int) - activeSizeOf (history.prune height))
      deepSize := cache.deepSize - ((deepSizeOf (some history) : Int) - deepSizeOf (history.prune height)) }

/-- `prune`, with the ids in the group of the height in the order in which they are iterated. -/
def prune (height : Nat) (ids : List NamespaceId) (cache : NamespaceCacheDelta Address) :
    NamespaceIds × NamespaceCacheDelta Address :=
  ids.foldl (fun (collectedIds, cache) id =>
    (match cache.historyById.find? id with
      | none => collectedIds
      | some history => collectedIds.insertAll (history.prunedIds height).entries,
    cache.pruneHistory height id)) (∅, cache)

def copyHistory (id : NamespaceId) (cache : NamespaceCacheDelta Address) : NamespaceCacheDelta Address :=
  { cache with historyById := cache.historyById.alter id fun history => history.bind RootNamespaceHistory.copy }

end NamespaceCacheDelta
end Catapult.Namespaces
