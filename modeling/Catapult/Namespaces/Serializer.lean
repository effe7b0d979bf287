import Catapult.Lib.Reader
import Catapult.Namespaces.RootNamespaceHistory
import Mathlib.Data.List.Lex

/-!
# Serializing histories (`RootNamespaceHistorySerializer`, `RootNamespaceHistoryNonHistoricalSerializer`)

The roots of a history are written from the oldest one on, each with its owner, its lifetime and its alias. The
children are written with the first of the roots that share them, and no children with the others. What is loaded is
pushed to the back of a history, which finds out again which roots share their children.
-/

namespace Catapult.Namespaces.Serializer
open Reader

abbrev Address := FixedBytes 24

inductive SerializerError where
  /-- A read beyond the end of the stream. -/
  | endOfStream
  /-- "checked_cast detected data truncation" -/
  | dataTruncation (value : Nat)
  /-- "unknown child namespace (id)" -/
  | unknownChild (id : NamespaceId)
  /-- "namespace lifetime must be positive" -/
  | lifetimeNotPositive (startHeight endHeight : Nat)
  | history (error : NamespaceError)

inductive HeaderMode where
  | includeHistoryDepth
  | excludeHistoryDepth

abbrev Level := RootNamespace Address × Children Address

def saveHeader (history : RootNamespaceHistory Address) : HeaderMode → List UInt8
  | .includeHistoryDepth => leBytes 8 history.historyDepth ++ leBytes 8 history.id
  | .excludeHistoryDepth => leBytes 8 history.id

def saveAlias : NamespaceAlias Address → List UInt8
  | .none => [0]
  | .mosaicId id => 1 :: leBytes 8 id
  | .address address => 2 :: address.1

/-- `checked_cast<size_t, uint8_t>`. -/
def checkedCast (value : Nat) : Except SerializerError UInt8 :=
  if 255 < value then throw (.dataTruncation value) else return UInt8.ofNat value

def sortedChildPaths (children : Children Address) : SortedMap (List NamespaceId) Unit :=
  (∅ : SortedMap (List NamespaceId) Unit).insertAll (children.entries.map fun pair => (pair.2.ns.path, ()))

/-- `RootNamespace::alias`. -/
def aliasOf (level : Level) (id : NamespaceId) : Except SerializerError (NamespaceAlias Address) :=
  if level.1.id = id then return level.1.namespaceAlias
  else
    match level.2.find? id with
    | none => throw (.unknownChild id)
    | some child => return child.namespaceAlias

/-- An iteration of `SaveChildren`. The root id is not written. -/
def savePath (level : Level) (path : List NamespaceId) : Except SerializerError (List UInt8) := do
  let depth ← checkedCast (path.length - 1)
  let namespaceAlias ← aliasOf level (path.getLastD namespaceBaseId)
  return depth :: (path.tail.flatMap (leBytes 8) ++ saveAlias namespaceAlias)

def saveChildren (level : Level) : Except SerializerError (List UInt8) := do
  let paths := (sortedChildPaths level.2).keys
  let children ← paths.mapM (savePath level)
  return leBytes 8 paths.length ++ children.flatten

def saveRootNamespace (level : Level) (previousRoot : Option (RootNamespace Address)) :
    Except SerializerError (List UInt8) := do
  -- a shared owner: the children are not written again
  let children ← (if previousRoot.any (level.1.canExtend ·) then pure (leBytes 8 0) else saveChildren level)
  return level.1.ownerAddress.1 ++ (leBytes 8 level.1.lifetime.startHeight ++ (leBytes 8 level.1.lifetime.endHeight ++
    (saveAlias level.1.namespaceAlias ++ children)))

/-- The loop of `Save`. The roots are given the most recent first, and the oldest one is written first. -/
def saveRoots : List Level → Except SerializerError (List UInt8)
  | [] => pure []
  | level :: older => do
    let roots ← saveRoots older
    let root ← saveRootNamespace level (older.head?.map Prod.fst)
    return roots ++ root

def save (history : RootNamespaceHistory Address) : Except SerializerError (List UInt8) := do
  let roots ← saveRoots history.levels
  return saveHeader history .includeHistoryDepth ++ roots

/-- `Save` of the serializer without histories. A history without roots, which is refused, cannot be built here. -/
def saveNonHistorical (history : RootNamespaceHistory Address) : Except SerializerError (List UInt8) := do
  let root ← saveRootNamespace (history.back, history.activeChildren) none
  return saveHeader history .excludeHistoryDepth ++ root

abbrev Loader := Reader SerializerError

structure Header where
  historyDepth : Nat := 0
  id : NamespaceId

def readHeader : HeaderMode → Loader Header
  | .includeHistoryDepth => do
    let historyDepth ← nat .endOfStream 8
    let id ← nat .endOfStream 8
    return { historyDepth, id }
  | .excludeHistoryDepth => do
    let id ← nat .endOfStream 8
    return { id }

def loadPath (rootId : NamespaceId) : Loader Namespace := do
  let childDepth ← nat .endOfStream 1
  let ids ← times (nat .endOfStream 8) childDepth
  return ⟨rootId :: ids, by simp⟩

def loadAlias : Loader (NamespaceAlias Address) := do
  let aliasType ← nat .endOfStream 1
  match aliasType with
  | 1 => do
    let id ← nat .endOfStream 8
    return .mosaicId id
  | 2 => do
    let address ← bytes .endOfStream 24
    return .address address
  | _ => return .none

/-- An iteration of `LoadChildren`. -/
def loadChild (rootId : NamespaceId) (pairs : List (Namespace × NamespaceAlias Address)) :
    Loader (List (Namespace × NamespaceAlias Address)) := do
  let path ← loadPath rootId
  let namespaceAlias ← loadAlias
  return pairs ++ [(path, namespaceAlias)]

def loadChildren (rootId : NamespaceId) (numChildren : Nat) : Loader (List (Namespace × NamespaceAlias Address)) :=
  loop32 .endOfStream (loadChild rootId) numChildren []

def readLifetime : Loader NamespaceLifetime := do
  let startHeight ← nat .endOfStream 8
  let endHeight ← nat .endOfStream 8
  if h : startHeight < endHeight then return ⟨startHeight, endHeight, h⟩
  else throw (.lifetimeNotPositive startHeight endHeight)

/-- `push_back` to a history that may be empty. -/
def pushBack (id : NamespaceId) (owner : Address) (lifetime : NamespaceLifetime) :
    Option (RootNamespaceHistory Address) → RootNamespaceHistory Address
  | none => .ofRoot id owner lifetime
  | some history => history.pushBack owner lifetime

def modifyBack (history : RootNamespaceHistory Address) (f : EStateM NamespaceError (SharedRoots Address) Unit) :
    Loader (RootNamespaceHistory Address) :=
  match f.run history.last with
  | .ok _ last => pure { history with last := last }
  | .error e _ => throw (.history e)

def addChild (history : RootNamespaceHistory Address) (pair : Namespace × NamespaceAlias Address) :
    Loader (RootNamespaceHistory Address) := do
  let history ← modifyBack history (SharedRoots.add pair.1)
  modifyBack history (SharedRoots.setAlias pair.1.id pair.2)

def loadRootNamespace (id : NamespaceId) (history : Option (RootNamespaceHistory Address)) :
    Loader (RootNamespaceHistory Address) := do
  let owner ← bytes .endOfStream 24
  let lifetime ← readLifetime
  let namespaceAlias ← loadAlias
  let history ← modifyBack (pushBack id owner lifetime history) (SharedRoots.setAlias id namespaceAlias)
  let numChildren ← nat .endOfStream 8
  let pairs ← loadChildren id numChildren
  pairs.foldlM addChild history

/-- An iteration of `Load`. -/
def loadRoot (id : NamespaceId) (history : Option (RootNamespaceHistory Address)) :
    Loader (Option (RootNamespaceHistory Address)) :=
  some <$> loadRootNamespace id history

/-- `Load`. The history has no roots when nothing is loaded. -/
def load : Loader (NamespaceId × Option (RootNamespaceHistory Address)) := do
  let header ← readHeader .includeHistoryDepth
  let history ← loop32 .endOfStream (loadRoot header.id) header.historyDepth none
  return (header.id, history)

def loadNonHistorical : Loader (RootNamespaceHistory Address) := do
  let header ← readHeader .excludeHistoryDepth
  loadRootNamespace header.id none

/-- The number of an alias has eight bytes. -/
def SizedAlias : NamespaceAlias Address → Prop
  | .mosaicId id => id < 256 ^ 8
  | _ => True

structure SizedRoot (root : RootNamespace Address) : Prop where
  startHeight : root.lifetime.startHeight < 256 ^ 8
  endHeight : root.lifetime.endHeight < 256 ^ 8
  namespaceAlias : SizedAlias root.namespaceAlias

structure SizedChildren (children : Children Address) : Prop where
  size : children.size < 256 ^ 8
  paths : ∀ id child, children.find? id = some child → ∀ k ∈ child.ns.path, k < 256 ^ 8
  aliases : ∀ id child, children.find? id = some child → SizedAlias child.namespaceAlias

/-- The numbers and sizes of a history are numbers of the 64 bits that they have in the source. -/
structure Sized (history : RootNamespaceHistory Address) : Prop where
  id : history.id < 256 ^ 8
  historyDepth : history.historyDepth < 256 ^ 8
  roots : ∀ root ∈ history.roots, SizedRoot root
  children : ∀ s ∈ history.groups, SizedChildren s.children

section Reads
variable {root : RootNamespace Address} {namespaceAlias : NamespaceAlias Address} {id : NamespaceId}

theorem reads_header {history : RootNamespaceHistory Address} (hsized : Sized history) :
    Reads (readHeader .includeHistoryDepth) (saveHeader history .includeHistoryDepth)
      ⟨history.historyDepth, history.id⟩ :=
  (Reads.nat hsized.historyDepth).bind (Reads.nat hsized.id).bind_pure

theorem reads_alias (hsized : SizedAlias namespaceAlias) :
    Reads loadAlias (saveAlias namespaceAlias) namespaceAlias := by
  cases namespaceAlias with
  | none => exact (Reads.nat (n := 0) (k := 1) (by decide)).bind (Reads.pure NamespaceAlias.none)
  | mosaicId id => exact Reads.bind (Reads.nat (n := 1) (k := 1) (by decide)) (Reads.nat hsized).bind_pure
  | address address => exact Reads.bind (Reads.nat (n := 2) (k := 1) (by decide)) (Reads.bytes address).bind_pure

theorem reads_lifetime (hsized : SizedRoot root) :
    Reads readLifetime (leBytes 8 root.lifetime.startHeight ++ leBytes 8 root.lifetime.endHeight) root.lifetime := by
  refine (Reads.nat hsized.startHeight).bind ?_
  intro rest
  rw [bind_apply, Reads.nat hsized.endHeight]
  simp only [root.lifetime.start_lt_end, dite_true]
  rfl

theorem reads_path {ns : Namespace} (hroot : ns.rootId = id) (hlength : ns.path.length ≤ 256)
    (hids : ∀ k ∈ ns.path, k < 256 ^ 8) :
    Reads (loadPath id) (UInt8.ofNat (ns.path.length - 1) :: ns.path.tail.flatMap (leBytes 8)) ns := by
  obtain ⟨path, hne⟩ := ns
  obtain ⟨root, ids, rfl⟩ := List.exists_cons_of_ne_nil hne
  obtain rfl : root = id := hroot
  simp only [List.length_cons] at hlength
  have hdepth : Reads (nat SerializerError.endOfStream 1) [UInt8.ofNat ids.length] ids.length :=
    Reads.nat (k := 1) (by omega)
  exact hdepth.bind (Reads.times (g := leBytes 8) fun k hk => Reads.nat (hids k (List.mem_cons_of_mem _ hk))).bind_pure

end Reads
end Catapult.Namespaces.Serializer
